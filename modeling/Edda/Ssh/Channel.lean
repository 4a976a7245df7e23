import Edda.Auth.Authz
import Edda.Git.RequestFraming

/-!
# The channels of an SSH connection

A channel on which a fetch was started gathers the bytes of the client in a buffer and answers as
soon as the buffer holds a complete request; it is finished then, and bytes that come later are
dropped. A channel on which a push was started gathers bytes until the client closes its side.

`uploadPackRequestIsComplete_agrees` puts this together with the two scanners of a request: the
answer to a fetch depends on the bytes that its channel received, not on how they were cut into
chunks or on what the other channels of the connection received in between.
-/

set_option autoImplicit false

namespace Edda.Ssh

open Edda.Domain Edda.Git Edda.Support.RustText

abbrev ChannelId := BitVec 32

/-- What a channel of a connection is doing. -/
inductive ChannelState where
  | idle
  | uploadPack (identity : String) (buffer : Bytes)
  | receivePack (identity : String) (buffer : Bytes) (checks : ReceiveChecks)
      (repositoryId : RepositoryId) (pusherId : Option UserId)
  deriving DecidableEq, Repr

abbrev Channels := AList fun _ : ChannelId => ChannelState

/-- The answer to a fetch: a response, or the error that the client is shown. -/
abbrev Answer := Except GitError UploadPackResponse

section Data

variable (gix : Gix) (openRepoDir : String → Except GitError Repo)

/-- `run_upload_pack` on the repository of an identity. -/
def serveUploadPack (identity : String) (body : Bytes) : Answer :=
  match openRepoDir identity with
  | .error err => .error err
  | .ok state => runUploadPack gix state body

/-- Takes in a chunk for one channel: the channels afterwards, and the answer, if the channel is
done. -/
def data (channels : Channels) (channel : ChannelId) (chunk : Bytes) :
    Channels × Option Answer :=
  match channels.lookup channel with
  | none => (channels, none)
  | some .idle => (channels, none)
  | some (.uploadPack identity buffer) =>
    let buffer := buffer ++ chunk
    if uploadPackRequestIsComplete buffer then
      -- the channel is not put back: whatever the client sends after this is dropped
      (channels.erase channel, some (serveUploadPack gix openRepoDir identity buffer))
    else (channels.insert channel (.uploadPack identity buffer), none)
  | some (.receivePack identity buffer checks repositoryId pusherId) =>
    (channels.insert channel
      (.receivePack identity (buffer ++ chunk) checks repositoryId pusherId), none)

/-- The answers on one channel to the chunks that a connection receives, each for some channel. -/
def answersOn (channel : ChannelId) : Channels → List (ChannelId × Bytes) → List Answer
  | _, [] => []
  | channels, (target, chunk) :: chunks =>
    let out := data gix openRepoDir channels target chunk
    let rest := answersOn channel out.1 chunks
    if target = channel then out.2.toList ++ rest else rest

/-- The bytes that one channel received. -/
def streamOf (channel : ChannelId) (chunks : List (ChannelId × Bytes)) : Bytes :=
  (chunks.filter fun chunk => chunk.1 = channel).flatMap Prod.snd

/-- A chunk for another channel leaves a channel as it is. -/
theorem lookup_data_ne {channels : Channels} {channel target : ChannelId} (h : channel ≠ target)
    (chunk : Bytes) :
    (data gix openRepoDir channels target chunk).1.lookup channel = channels.lookup channel := by
  simp only [data]
  cases channels.lookup target with
  | none => rfl
  | some state =>
    cases state with
    | idle => rfl
    | uploadPack identity buffer =>
      dsimp only
      split
      · exact AList.lookup_erase_ne h
      · exact AList.lookup_insert_ne h
    | receivePack identity buffer checks repositoryId pusherId => exact AList.lookup_insert_ne h

/-- A channel that is gone answers nothing more. -/
theorem answersOn_closed {channel : ChannelId} {channels : Channels}
    (h : channels.lookup channel = none) (chunks : List (ChannelId × Bytes)) :
    answersOn gix openRepoDir channel channels chunks = [] := by
  induction chunks generalizing channels with
  | nil => rfl
  | cons head chunks ih =>
    obtain ⟨target, chunk⟩ := head
    simp only [answersOn]
    by_cases htarget : target = channel
    · subst htarget
      have hdata : data gix openRepoDir channels target chunk = (channels, none) := by
        simp only [data, h]
      rw [if_pos rfl, hdata]
      exact ih h
    · rw [if_neg htarget]
      apply ih
      rw [lookup_data_ne gix openRepoDir (Ne.symm htarget), h]

/-- What a fetch is answered depends on the request that its bytes parse to. -/
theorem serveUploadPack_append {body : Bytes} (h : uploadPackRequestIsComplete body = true)
    (identity : String) (suffix : Bytes) :
    serveUploadPack gix openRepoDir identity (body ++ suffix) =
      serveUploadPack gix openRepoDir identity body := by
  simp only [serveUploadPack, runUploadPack, (parseUploadPackRequest_append h suffix).2]

/-- A fetch is answered once, with what its bytes ask for, if they come to a complete request. -/
theorem answersOn_uploadPack {channel : ChannelId} {channels : Channels} {identity : String}
    {buffer : Bytes} (hstate : channels.lookup channel = some (.uploadPack identity buffer))
    (hopen : uploadPackRequestIsComplete buffer = false) (chunks : List (ChannelId × Bytes)) :
    answersOn gix openRepoDir channel channels chunks =
      if uploadPackRequestIsComplete (buffer ++ streamOf channel chunks) then
        [serveUploadPack gix openRepoDir identity (buffer ++ streamOf channel chunks)]
      else [] := by
  induction chunks generalizing channels buffer with
  | nil => simp [answersOn, streamOf, hopen]
  | cons head chunks ih =>
    obtain ⟨target, chunk⟩ := head
    simp only [answersOn]
    by_cases htarget : target = channel
    · subst htarget
      have hstream : buffer ++ streamOf target ((target, chunk) :: chunks) =
          (buffer ++ chunk) ++ streamOf target chunks := by
        simp [streamOf]
      rw [if_pos rfl, hstream]
      cases hcomplete : uploadPackRequestIsComplete (buffer ++ chunk) with
      | true =>
        -- the rest of the stream changes neither the answer nor its number
        have hdata : data gix openRepoDir channels target chunk = (channels.erase target,
            some (serveUploadPack gix openRepoDir identity (buffer ++ chunk))) := by
          simp only [data, hstate, hcomplete, if_true]
        rw [hdata, answersOn_closed gix openRepoDir (AList.lookup_erase _ _),
          if_pos (parseUploadPackRequest_append hcomplete _).1,
          serveUploadPack_append gix openRepoDir hcomplete]
        rfl
      | false =>
        have hdata : data gix openRepoDir channels target chunk =
            (channels.insert target (.uploadPack identity (buffer ++ chunk)), none) := by
          simp only [data, hstate, hcomplete, Bool.false_eq_true, if_false]
        rw [hdata]
        exact ih (AList.lookup_insert _) hcomplete
    · have hstream : streamOf channel ((target, chunk) :: chunks) = streamOf channel chunks := by
        simp [streamOf, htarget]
      rw [if_neg htarget, hstream]
      apply ih _ hopen
      rw [lookup_data_ne gix openRepoDir (Ne.symm htarget), hstate]

/-- The scan for a complete request agrees with the parser on every buffer; a complete buffer
stays complete and parses the same, whatever follows; and a fetch over SSH has one answer, that to
all the bytes of its channel, however these were cut, or none. -/
theorem uploadPackRequestIsComplete_agrees :
    (∀ body, uploadPackRequestIsComplete body = true ↔ (parseUploadPackRequest body).done = true) ∧
      (∀ body suffix, uploadPackRequestIsComplete body = true →
        uploadPackRequestIsComplete (body ++ suffix) = true ∧
          parseUploadPackRequest (body ++ suffix) = parseUploadPackRequest body) ∧
      ∀ (channels : Channels) (channel : ChannelId) (identity : String)
        (chunks : List (ChannelId × Bytes)),
        channels.lookup channel = some (.uploadPack identity []) →
        answersOn gix openRepoDir channel channels chunks =
          if uploadPackRequestIsComplete (streamOf channel chunks) then
            [serveUploadPack gix openRepoDir identity (streamOf channel chunks)]
          else [] := by
  refine ⟨?_, ?_, ?_⟩
  · intro body
    rw [isComplete_eq_done]
  · intro body suffix h
    exact parseUploadPackRequest_append h suffix
  · intro channels channel identity chunks hstate
    exact answersOn_uploadPack gix openRepoDir hstate rfl chunks

end Data

/-- A request that arrives in two pieces, with a chunk for another channel in between. -/
def cutRequest : List (ChannelId × Bytes) :=
  [(1, wantLeftover.take 10), (2, [0]), (1, wantLeftover.drop 10)]

/-- The request is answered as if it had come whole. -/
theorem cut_request_is_answered :
    answersOn leftoverGix (fun _ => .ok leftoverRepo) 1
        ((∅ : Channels).insert 1 (.uploadPack "o/r" [])) cutRequest =
      [serveUploadPack leftoverGix (fun _ => .ok leftoverRepo) "o/r" wantLeftover] := by
  have hstream : streamOf 1 cutRequest = wantLeftover := by decide +kernel
  have hcomplete : uploadPackRequestIsComplete wantLeftover = true := by decide +kernel
  have h := (uploadPackRequestIsComplete_agrees leftoverGix (fun _ => .ok leftoverRepo)).2.2
    ((∅ : Channels).insert 1 (.uploadPack "o/r" [])) 1 "o/r" cutRequest (AList.lookup_insert _)
  rw [hstream, if_pos hcomplete] at h
  exact h

end Edda.Ssh
