import Edda.Support.RustText

/-!
# Slices of a text

A slice of a text is given by the offsets of its bytes, and there is none where an offset is beyond the
text or inside of a character. `slice_append` is the slice that a part of a text is.
-/

set_option autoImplicit false

namespace Edda.Support.RustText

/-- How many bytes a text has (`str::len`). -/
def byteLength (text : List Char) : Nat := (text.flatMap String.utf8EncodeChar).length

def dropBytes : Nat → List Char → Option (List Char)
  | 0, text => some text
  | _ + 1, [] => none
  | n + 1, c :: text =>
    let size := (String.utf8EncodeChar c).length
    if size ≤ n + 1 then dropBytes (n + 1 - size) text else none

def takeBytes : Nat → List Char → Option (List Char)
  | 0, _ => some []
  | _ + 1, [] => none
  | n + 1, c :: text =>
    let size := (String.utf8EncodeChar c).length
    if size ≤ n + 1 then (takeBytes (n + 1 - size) text).map (c :: ·) else none

/-- `text[start..stop]`, where the code does not panic. -/
def slice (text : List Char) (start stop : Nat) : Option (List Char) :=
  if start ≤ stop then (dropBytes start text).bind (takeBytes (stop - start)) else none

theorem byteLength_append (front tail : List Char) :
    byteLength (front ++ tail) = byteLength front + byteLength tail := by
  rw [byteLength, List.flatMap_append, List.length_append]
  rfl

theorem byteLength_cons (c : Char) (text : List Char) :
    byteLength (c :: text) = (String.utf8EncodeChar c).length + byteLength text := by
  rw [byteLength, List.flatMap_cons, List.length_append]
  rfl

theorem byteLength_cons_eq_succ (c : Char) (text : List Char) :
    ∃ n, byteLength (c :: text) = n + 1 := by
  have hpos := List.length_pos_of_ne_nil (String.utf8EncodeChar_ne_nil (c := c))
  rw [byteLength_cons]
  exact Nat.exists_eq_add_one.2 (Nat.add_pos_left hpos _)

theorem dropBytes_append (front tail : List Char) :
    dropBytes (byteLength front) (front ++ tail) = some tail := by
  induction front with
  | nil => cases tail <;> rfl
  | cons c front ih =>
    obtain ⟨n, hn⟩ := byteLength_cons_eq_succ c front
    have hsize := byteLength_cons c front
    rw [hn] at hsize
    rw [hn, List.cons_append, dropBytes, if_pos (by omega)]
    rwa [hsize, Nat.add_sub_cancel_left]

theorem takeBytes_append (part tail : List Char) :
    takeBytes (byteLength part) (part ++ tail) = some part := by
  induction part with
  | nil => cases tail <;> rfl
  | cons c part ih =>
    obtain ⟨n, hn⟩ := byteLength_cons_eq_succ c part
    have hsize := byteLength_cons c part
    rw [hn] at hsize
    rw [hn, List.cons_append, takeBytes, if_pos (by omega), hsize, Nat.add_sub_cancel_left, ih,
      Option.map_some]

/-- A part of a text is the slice from the offset that it begins at to the one that it ends at. -/
theorem slice_append (front part tail : List Char) :
    slice (front ++ (part ++ tail)) (byteLength front) (byteLength front + byteLength part) =
      some part := by
  rw [slice, if_pos (Nat.le_add_right _ _), dropBytes_append, Option.bind_some,
    Nat.add_sub_cancel_left, takeBytes_append]

end Edda.Support.RustText
