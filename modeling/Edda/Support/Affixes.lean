import Edda.Support.TextList

/-!
# What is cut off the ends of texts

A text that was put together is taken apart again: a prefix or a suffix is stripped exactly where it
is (`stripPrefix_append`, `stripSuffix_append`, `stripSuffix_eq_none`), and a text that ends in no
white space is not trimmed (`trim_of_ends`).
-/

set_option autoImplicit false

namespace Edda.Support.RustText

/-- `str::strip_suffix`. -/
def stripSuffix (suffix text : List Char) : Option (List Char) :=
  (stripPrefix suffix.reverse text.reverse).map List.reverse

theorem stripPrefix_append (front text : List Char) : stripPrefix front (front ++ text) = some text := by
  induction front with
  | nil => cases text <;> rfl
  | cons c front ih => rw [List.cons_append, stripPrefix, if_pos rfl, ih]

theorem stripSuffix_append (text suffix : List Char) :
    stripSuffix suffix (text ++ suffix) = some text := by
  rw [stripSuffix, List.reverse_append, stripPrefix_append, Option.map_some, List.reverse_reverse]

theorem prefix_of_stripPrefix {front text rest : List Char}
    (h : stripPrefix front text = some rest) : front <+: text := by
  induction front generalizing text with
  | nil => exact List.nil_prefix
  | cons c front ih =>
    cases text with
    | nil => exact absurd h (by simp [stripPrefix])
    | cons d text =>
      rw [stripPrefix] at h
      split at h
      · next heq => exact List.cons_prefix_cons.2 ⟨heq, ih h⟩
      · exact absurd h (by simp)

theorem stripSuffix_eq_none {suffix text : List Char} (h : ¬ suffix <:+ text) :
    stripSuffix suffix text = none := by
  rw [stripSuffix, Option.map_eq_none_iff, Option.eq_none_iff_forall_ne_some]
  intro rest hrest
  exact h (List.reverse_prefix.1 (prefix_of_stripPrefix hrest))

/-- Nothing is trimmed off a text between two characters that are no white space. -/
theorem trim_of_ends {first last : Char} {text mid : List Char} (htext : text = first :: mid)
    (hlast : text.getLast? = some last) (hfirst : isWhitespace first = false)
    (hend : isWhitespace last = false) : trim text = text := by
  obtain ⟨front, hfront⟩ := List.getLast?_eq_some_iff.1 hlast
  rw [trim, hfront, trimEnd_concat hend, ← hfront, htext, trimStart,
    List.dropWhile_cons_of_neg (by simp [hfirst])]

theorem splitOnce_eq_some {sep : Char} {text head rest : List Char}
    (h : splitOnce sep text = some (head, rest)) : text = head ++ sep :: rest := by
  induction text generalizing head with
  | nil => exact absurd h (by simp [splitOnce])
  | cons c text ih =>
    rw [splitOnce] at h
    split at h
    · next hc =>
      obtain ⟨rfl, rfl⟩ := Prod.mk.inj (Option.some.inj h)
      rw [hc, List.nil_append]
    · obtain ⟨⟨before, after⟩, hsplit, heq⟩ := Option.map_eq_some_iff.1 h
      obtain ⟨rfl, rfl⟩ := Prod.mk.inj heq
      rw [ih hsplit, List.cons_append]

end Edda.Support.RustText
