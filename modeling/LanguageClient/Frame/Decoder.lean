import LanguageClient.Frame.Header
import LanguageClient.Json.Reader

/-!
# Decoding frames

Frames are taken off the front of a buffer. A header without a usable length is skipped, a
body that is not JSON is dropped, and neither ends the stream. Until a whole body has come,
the buffer stays as it is.
-/

namespace LanguageClient.Frame

def defaultLimit : Nat := 64 * 1024 * 1024

inductive Front where
  /-- Nothing complete yet. -/
  | wait
  /-- A header that declares no usable length, and what follows its blank line. -/
  | skip (rest : Bytes)
  /-- A body and what follows it. -/
  | body (bytes rest : Bytes)
  /-- The sizes of header, blank line and body do not add up within 64 bits. -/
  | overflow
  deriving DecidableEq, Repr

def front (limit : Nat) (buffer : Bytes) : Front :=
  match splitBlock buffer with
  | none => .wait
  | some block =>
    match (bodyLength? block.header).filter (· ≤ limit) with
    | none => .skip block.rest
    | some size =>
      if Unsigned.wordBound ≤ block.header.length + block.separator + size then .overflow
      else if block.rest.length < size then .wait
      else .body (block.rest.take size) (block.rest.drop size)

theorem front_skip_shorter {limit : Nat} {buffer rest : Bytes}
    (h : front limit buffer = .skip rest) :
    rest.length < buffer.length := by
  unfold front at h
  split at h
  · simp at h
  · rename_i block hb
    have hs := size_of_splitBlock hb
    split at h
    · simp only [Front.skip.injEq] at h
      subst h
      omega
    · split at h
      · simp at h
      · split at h <;> simp at h

theorem front_body_shorter {limit : Nat} {buffer bytes rest : Bytes}
    (h : front limit buffer = .body bytes rest) : rest.length < buffer.length := by
  unfold front at h
  split at h
  · simp at h
  · rename_i block hb
    have hs := size_of_splitBlock hb
    split at h
    · simp at h
    · split at h
      · simp at h
      · split at h
        · simp at h
        · simp only [Front.body.injEq] at h
          rw [← h.2, List.length_drop]
          omega

inductive Decoded where
  | message (v : Json) (rest : Bytes)
  | wait (rest : Bytes)
  | overflow
  deriving DecidableEq

/-- Takes the first message off a buffer. -/
def decode (limit : Nat) (buffer : Bytes) : Decoded :=
  match _h : front limit buffer with
  | .wait => .wait buffer
  | .overflow => .overflow
  | .skip rest => decode limit rest
  | .body bytes rest =>
    match Json.parseBytes? bytes with
    | some v => .message v rest
    | none => decode limit rest
termination_by buffer.length
decreasing_by
  · exact front_skip_shorter _h
  · exact front_body_shorter _h

theorem decode_message_shorter {limit : Nat} {buffer rest : Bytes} {v : Json}
    (h : decode limit buffer = .message v rest) : rest.length < buffer.length := by
  fun_induction decode limit buffer with
  | case1 => simp at h
  | case2 => simp at h
  | case3 buffer next hf ih => exact Nat.lt_trans (ih h) (front_skip_shorter hf)
  | case4 buffer bytes next hf w hp =>
    simp only [Decoded.message.injEq] at h
    exact h.2 ▸ front_body_shorter hf
  | case5 buffer bytes next hf hp ih => exact Nat.lt_trans (ih h) (front_body_shorter hf)

/-- All complete messages of a buffer and what is left of it; nothing on overflow. -/
def drain (limit : Nat) (buffer : Bytes) : Option (List Json × Bytes) :=
  match _h : decode limit buffer with
  | .overflow => none
  | .wait rest => some ([], rest)
  | .message v rest => (drain limit rest).map fun (vs, rest) => (v :: vs, rest)
termination_by buffer.length
decreasing_by exact decode_message_shorter _h

/-- The decoder's answer once the stream has ended: an incomplete frame is thrown away. -/
def decodeAtEnd (limit : Nat) (buffer : Bytes) : Decoded :=
  match decode limit buffer with
  | .wait _ => .wait []
  | other => other

end LanguageClient.Frame
