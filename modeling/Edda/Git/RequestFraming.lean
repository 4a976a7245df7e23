import Edda.Git.UploadPack

/-!
# When a buffered request is complete

A transport that reads a fetch request off a live channel asks after every chunk whether the
bytes so far hold the whole request. `uploadPackRequestIsComplete` scans them for this on its own,
and `parseUploadPackRequest` reads the same bytes again.

The two agree on every buffer (`isComplete_eq_done`): the first section ends at the same flush
packet, and where no packet can be read there both stop, as nothing is read at that place in the
second section either. A buffer that is complete stays complete, and says the same, whatever
follows it (`isComplete_append`, `parseUploadPackRequest_append`).
-/

set_option autoImplicit false

namespace Edda.Git

open Edda.Support.RustText

/-- The bytes after the first flush packet. -/
def afterFlush : Nat → Bytes → Option Bytes
  | 0, _ => none
  | fuel + 1, body => match readPktLine body with
    | some (.flush, rest) => some rest
    | some (.data _, rest) => afterFlush fuel rest
    | none => none

/-- Whether a `done` line comes before the place where no packet can be read. -/
def reachesDone : Nat → Bytes → Bool
  | 0, _ => false
  | fuel + 1, body => match readPktLine body with
    | none => false
    | some (.flush, rest) => reachesDone fuel rest
    | some (.data data, rest) =>
      if trimEnd (fromUtf8Lossy data) = "done".toList then true else reachesDone fuel rest

/-- Every packet takes a byte at least, so the body is scanned to its end. -/
def uploadPackRequestIsComplete (body : Bytes) : Bool :=
  match afterFlush body.length body with
  | none => false
  | some rest => reachesDone body.length rest

/-! ## The second section -/

/-- Reading the second section finds `done` where the scan does. -/
theorem done_readHaves (fuel : Nat) (request : UploadPackRequest) (body : Bytes) :
    (readHaves fuel request body).done = (request.done || reachesDone fuel body) := by
  induction fuel generalizing request body with
  | zero => simp [readHaves, reachesDone]
  | succ fuel ih =>
    simp only [readHaves, reachesDone]
    cases readPktLine body with
    | none => simp
    | some packet =>
      obtain ⟨line, rest⟩ := packet
      cases line with
      | flush => exact ih request rest
      | data data =>
        by_cases hdone : trimEnd (fromUtf8Lossy data) = "done".toList
        · simp [hdone]
        · simp only [if_neg hdone]
          cases parseOidLine data "have " with
          | none => exact ih request rest
          | some id => exact ih _ rest

/-- Where no packet can be read there is no `done`. -/
theorem reachesDone_unreadable {body : Bytes} (h : readPktLine body = none) (fuel : Nat) :
    reachesDone fuel body = false := by
  cases fuel with
  | zero => rfl
  | succ fuel => simp only [reachesDone, h]

/-- A packet that was read is read again with more bytes behind it. -/
theorem readPktLine_append {input rest : Bytes} {line : PktLine}
    (h : readPktLine input = some (line, rest)) (suffix : Bytes) :
    readPktLine (input ++ suffix) = some (line, rest ++ suffix) := by
  simp only [readPktLine] at h ⊢
  by_cases hshort : input.length < 4
  · simp [hshort] at h
  · have htake : (input ++ suffix).take 4 = input.take 4 :=
      List.take_append_of_le_length (by omega)
    have hlong : ¬ (input ++ suffix).length < 4 := by
      rw [List.length_append]
      omega
    rw [if_neg hshort] at h
    rw [if_neg hlong, htake]
    cases hlen : fromStrRadix16 (input.take 4) with
    | none => simp [hlen] at h
    | some len =>
      simp only [hlen] at h ⊢
      by_cases hzero : len = 0
      · simp only [hzero, if_true, Option.some.injEq, Prod.mk.injEq] at h ⊢
        obtain ⟨rfl, rfl⟩ := h
        exact ⟨rfl, List.drop_append_of_le_length (by omega)⟩
      · by_cases hcut : len < 4 ∨ input.length < len
        · simp [hzero, hcut] at h
        · have hwhole : ¬ (len < 4 ∨ (input ++ suffix).length < len) := by
            rw [List.length_append]
            omega
          simp only [hzero, hcut, if_false, Option.some.injEq, Prod.mk.injEq] at h
          obtain ⟨rfl, rfl⟩ := h
          simp only [hzero, hwhole, if_false, Option.some.injEq, Prod.mk.injEq]
          constructor
          · rw [List.drop_append_of_le_length (by omega),
              List.take_append_of_le_length (by rw [List.length_drop]; omega)]
          · exact List.drop_append_of_le_length (by omega)

/-- Once the scan has found `done`, the second section reads the same with more bytes behind it. -/
theorem readHaves_append {fuel : Nat} {body : Bytes} (h : reachesDone fuel body = true)
    {more : Nat} (hmore : fuel ≤ more) (suffix : Bytes) (request : UploadPackRequest) :
    reachesDone more (body ++ suffix) = true ∧
      readHaves more request (body ++ suffix) = readHaves fuel request body := by
  induction fuel generalizing body more request with
  | zero => simp [reachesDone] at h
  | succ fuel ih =>
    obtain ⟨more, rfl⟩ : ∃ n, more = n + 1 := ⟨more - 1, by omega⟩
    have hmore' : fuel ≤ more := by omega
    cases hread : readPktLine body with
    | none => simp [reachesDone, hread] at h
    | some packet =>
      obtain ⟨line, rest⟩ := packet
      simp only [reachesDone, hread] at h
      simp only [reachesDone, readHaves, hread, readPktLine_append hread suffix]
      cases line with
      | flush => exact ih h hmore' request
      | data data =>
        by_cases hdone : trimEnd (fromUtf8Lossy data) = "done".toList
        · simp [hdone]
        · simp only [if_neg hdone] at h ⊢
          refine ⟨(ih h hmore' request).1, ?_⟩
          cases parseOidLine data "have " with
          | none => exact (ih h hmore' request).2
          | some id => exact (ih h hmore' _).2

/-! ## The first section -/

/-- No line of the first section is `done`. -/
theorem done_readWantLine (request : UploadPackRequest) (data : Bytes) :
    (readWantLine request data).done = request.done := by
  simp only [readWantLine]
  repeat' split
  all_goals rfl

theorem done_readWants (fuel : Nat) (request : UploadPackRequest) (body : Bytes) :
    (readWants fuel request body).1.done = request.done := by
  induction fuel generalizing request body with
  | zero => rfl
  | succ fuel ih =>
    simp only [readWants]
    cases readPktLine body with
    | none => rfl
    | some packet =>
      obtain ⟨line, rest⟩ := packet
      cases line with
      | flush => rfl
      | data data => exact (ih _ rest).trans (done_readWantLine request data)

/-- The first section ends after the first flush packet, also with more bytes behind it. -/
theorem readWants_append {fuel : Nat} {body rest : Bytes} (h : afterFlush fuel body = some rest)
    {more : Nat} (hmore : fuel ≤ more) (suffix : Bytes) (request : UploadPackRequest) :
    afterFlush more (body ++ suffix) = some (rest ++ suffix) ∧
      readWants more request (body ++ suffix) =
        ((readWants fuel request body).1, rest ++ suffix) := by
  induction fuel generalizing body more request with
  | zero => simp [afterFlush] at h
  | succ fuel ih =>
    obtain ⟨more, rfl⟩ : ∃ n, more = n + 1 := ⟨more - 1, by omega⟩
    cases hread : readPktLine body with
    | none => simp [afterFlush, hread] at h
    | some packet =>
      obtain ⟨line, tail⟩ := packet
      simp only [afterFlush, hread] at h
      simp only [afterFlush, readWants, hread, readPktLine_append hread suffix]
      cases line with
      | flush =>
        obtain rfl := Option.some.inj h
        exact ⟨rfl, rfl⟩
      | data data => exact ih h (by omega) _

/-- Without a flush packet the first section ends where no packet can be read. -/
theorem readWants_unended {fuel : Nat} {body : Bytes} (hfuel : body.length ≤ fuel)
    (h : afterFlush fuel body = none) (request : UploadPackRequest) :
    readPktLine (readWants fuel request body).2 = none := by
  induction fuel generalizing body request with
  | zero =>
    have hnil : body = [] := List.length_eq_zero_iff.1 (by omega)
    subst hnil
    simp [readWants, readPktLine]
  | succ fuel ih =>
    cases hread : readPktLine body with
    | none => simp [readWants, hread]
    | some packet =>
      obtain ⟨line, rest⟩ := packet
      have hshorter := readPktLine_length_lt hread
      simp only [afterFlush, hread] at h
      simp only [readWants, hread]
      cases line with
      | flush => simp at h
      | data data => exact ih (by omega) h _

/-! ## The two scanners -/

/-- A buffer is complete exactly when its request is parsed up to `done`. -/
theorem isComplete_eq_done (body : Bytes) :
    uploadPackRequestIsComplete body = (parseUploadPackRequest body).done := by
  simp only [uploadPackRequestIsComplete, parseUploadPackRequest, done_readHaves, done_readWants,
    Bool.false_or]
  cases hflush : afterFlush body.length body with
  | none =>
    -- the parser goes on to its second section, but at a place where nothing can be read
    exact (reachesDone_unreadable
      (readWants_unended (Nat.le_refl _) hflush ⟨[], [], [], [], .none, false⟩) _).symm
  | some rest =>
    have hwants := (readWants_append hflush (Nat.le_refl _) [] ⟨[], [], [], [], .none, false⟩).2
    simp only [List.append_nil] at hwants
    rw [hwants]

/-- What follows a complete request is not looked at. -/
theorem parseUploadPackRequest_append {body : Bytes} (h : uploadPackRequestIsComplete body = true)
    (suffix : Bytes) :
    uploadPackRequestIsComplete (body ++ suffix) = true ∧
      parseUploadPackRequest (body ++ suffix) = parseUploadPackRequest body := by
  simp only [uploadPackRequestIsComplete] at h
  cases hflush : afterFlush body.length body with
  | none => simp [hflush] at h
  | some rest =>
    simp only [hflush] at h
    have hmore : body.length ≤ (body ++ suffix).length := by simp
    have hsame := readWants_append hflush (Nat.le_refl _) [] ⟨[], [], [], [], .none, false⟩
    have hlonger := readWants_append hflush hmore suffix ⟨[], [], [], [], .none, false⟩
    simp only [List.append_nil] at hsame
    constructor
    · simp only [uploadPackRequestIsComplete, hlonger.1]
      exact (readHaves_append h hmore suffix ⟨[], [], [], [], .none, false⟩).1
    · simp only [parseUploadPackRequest, hlonger.2]
      rw [(readHaves_append h hmore suffix _).2, hsame.2]

end Edda.Git
