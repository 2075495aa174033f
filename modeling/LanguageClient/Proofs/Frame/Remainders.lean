import LanguageClient.Proofs.Frame.Calls

/-!
# What a call leaves

A buffer that the decoder leaves without a message holds no complete piece: either its
first header has not ended yet, or fewer bytes have come than that header declares.
Asking again changes nothing. At the end of the stream these bytes are thrown away,
and no message with them.
-/

namespace LanguageClient
namespace Frame

/-!
# Sums that fit
-/

/-- Every header that the decoder may come to makes a sum that fits in 64 bits, if it
declares a body within the limit. -/
def SumsFit (limit : Nat) (buffer : Bytes) : Prop :=
  forall (pieces : List Piece) (tail : Bytes), buffer = pieces.flatMap Piece.bytes ++ tail ->
    (forall piece, piece ∈ pieces -> piece.WellFormed limit) -> ¬ Overflows limit tail

theorem sumsFit_of_length {limit : Nat} {buffer : Bytes}
    (h : limit + buffer.length < Unsigned.wordBound) : SumsFit limit buffer := by
  rintro pieces tail rfl - hoverflows
  have hroom := hoverflows.room
  rw [List.length_append] at h
  omega

theorem SumsFit.behind {limit : Nat} {pieces : List Piece} {rest : Bytes}
    (h : SumsFit limit (pieces.flatMap Piece.bytes ++ rest))
    (hpieces : forall piece, piece ∈ pieces -> piece.WellFormed limit) :
    SumsFit limit rest := by
  rintro more tail rfl hmore
  refine h (pieces ++ more) tail ?_ (List.forall_mem_append.mpr ⟨hpieces, hmore⟩)
  rw [List.flatMap_append, List.append_assoc]

theorem SumsFit.decode_ne_overflow {limit : Nat} {buffer : Bytes} (h : SumsFit limit buffer) :
    decode limit buffer ≠ .overflow := by
  intro hoverflow
  rcases decode_eq_iff.mp hoverflow with ⟨dropped, tail, hbuffer, hdropped, hend⟩
  cases hend with
  | overflow hoverflows =>
      exact h dropped tail hbuffer (fun piece hpiece =>
        (hdropped piece hpiece).left) hoverflows

theorem SumsFit.rest {limit : Nat} {buffer rest : Bytes} {v : Json} (h : SumsFit limit buffer)
    (hmessage : decode limit buffer = .message v rest) : SumsFit limit rest := by
  rcases decode_eq_iff.mp hmessage with ⟨dropped, tail, rfl, hdropped, hend⟩
  cases hend with
  | @message header body blank _ _ hframe hv =>
      have htail := h.behind fun piece hpiece => (hdropped piece hpiece).left
      have hsingle : forall piece, piece ∈ [Piece.frame header blank body] ->
          piece.WellFormed limit := by
        intro piece hpiece
        rwa [List.mem_singleton.mp hpiece]
      rw [← List.flatMap_singleton Piece.bytes] at htail
      exact htail.behind hsingle

theorem SumsFit.exists_drain {limit : Nat} {buffer : Bytes} (h : SumsFit limit buffer) :
    exists messages rest, drain limit buffer = some (messages, rest) := by
  fun_induction drain limit buffer with
  | case1 buffer hd => exact absurd hd h.decode_ne_overflow
  | case2 buffer rest hd => exact ⟨[], rest, rfl⟩
  | case3 buffer v rest hd ih =>
      rcases ih (h.rest hd) with ⟨messages, left, hrest⟩
      exact ⟨v :: messages, left, by rw [hrest]; rfl⟩

/-!
# The end of the stream
-/

theorem decodeAtEnd_of_message {limit : Nat} {buffer rest : Bytes} {v : Json}
    (h : decode limit buffer = .message v rest) :
    decodeAtEnd limit buffer = .message v rest := by
  rw [decodeAtEnd, h]

theorem decode_of_decodeAtEnd {limit : Nat} {buffer rest : Bytes} {v : Json}
    (h : decodeAtEnd limit buffer = .message v rest) :
    decode limit buffer = .message v rest := by
  rw [decodeAtEnd] at h
  split at h
  · cases h
  · exact h

theorem decodeAtEnd_message_shorter {limit : Nat} {buffer rest : Bytes} {v : Json}
    (h : decodeAtEnd limit buffer = .message v rest) : rest.length < buffer.length :=
  decode_message_shorter (decode_of_decodeAtEnd h)

/-- The messages of a buffer when no more bytes will come, and what is left of
it; nothing on overflow. -/
def drainAtEnd (limit : Nat) (buffer : Bytes) : Option (List Json × Bytes) :=
  match _h : decodeAtEnd limit buffer with
  | .overflow => none
  | .wait rest => some ([], rest)
  | .message v rest => (drainAtEnd limit rest).map fun (vs, rest) => (v :: vs, rest)
termination_by buffer.length
decreasing_by exact decodeAtEnd_message_shorter _h

theorem drainAtEnd_of_wait {limit : Nat} {buffer rest : Bytes}
    (h : decode limit buffer = .wait rest) :
    drainAtEnd limit buffer = some ([], []) := by
  have hend : decodeAtEnd limit buffer = .wait [] := by
    rw [decodeAtEnd, h]
  rw [drainAtEnd]
  split <;> simp_all

theorem drainAtEnd_of_message {limit : Nat} {buffer rest : Bytes} {v : Json}
    (h : decode limit buffer = .message v rest) :
    drainAtEnd limit buffer = (drainAtEnd limit rest).map fun (vs, left) =>
      (v :: vs, left) := by
  have hend := decodeAtEnd_of_message h
  rw [drainAtEnd]
  split <;> simp_all

theorem drainAtEnd_of_drain {limit : Nat} {buffer rest : Bytes} {messages : List Json}
    (h : drain limit buffer = some (messages, rest)) :
    drainAtEnd limit buffer = some (messages, []) := by
  fun_induction drain limit buffer generalizing messages with
  | case1 => cases h
  | case2 buffer left hd =>
      cases h
      exact drainAtEnd_of_wait hd
  | case3 buffer v next hd ih =>
      rcases Option.map_eq_some_iff.mp h with ⟨⟨vs, left⟩, hnext, heq⟩
      cases heq
      rw [drainAtEnd_of_message hd, ih hnext]
      rfl

/-!
# Nothing complete is kept
-/

/-- A call drops pieces without a message from the front of its buffer, at most one for
every two bytes. Then it takes one more frame and gives its body as a message, or it waits,
keeps what does not make up a piece yet, and waits again if it is asked again. At the end of
the stream the same messages come and nothing is kept. -/
theorem decode_keeps_incomplete (limit : Nat) (buffer : Bytes) (h : SumsFit limit buffer) :
    (exists dropped : List Piece, (forall piece, piece ∈ dropped -> piece.IsDropped limit) ∧
        2 * dropped.length ≤ buffer.length ∧
        ((exists v rest header blank body, decode limit buffer = .message v rest ∧
            buffer = dropped.flatMap Piece.bytes ++ (header ++ BlankLine.bytes blank ++
              body) ++ rest ∧
            (Piece.frame header blank body).WellFormed limit ∧ Json.parseBytes? body =
            some v) ∨
          exists rest, decode limit buffer = .wait rest ∧
            buffer = dropped.flatMap Piece.bytes ++ rest ∧ Incomplete limit rest ∧
            decode limit rest = .wait rest)) ∧
      exists messages rest, drain limit buffer = some (messages, rest) ∧
        drainAtEnd limit buffer = some (messages, []) := by
  constructor
  · rcases exists_endsCall limit buffer with ⟨dropped, tail, hbuffer, hdropped, hend⟩
    have hcount : 2 * dropped.length ≤ buffer.length := by
      have hpieces := two_mul_length_le dropped
      rw [hbuffer, List.length_append]
      omega
    refine ⟨dropped, hdropped, hcount, ?_⟩
    cases houtcome : decode limit buffer with
    | message v rest =>
        rw [houtcome] at hend
        cases hend with
        | @message header body blank _ _ hframe hv =>
            refine Or.inl ⟨v, rest, header, blank, body, rfl, ?_, hframe, hv⟩
            rw [hbuffer, List.append_assoc]
            rfl
    | wait rest =>
        rw [houtcome] at hend
        cases hend with
        | wait hincomplete hfits =>
            exact Or.inr ⟨tail, rfl, hbuffer, hincomplete, decode_wait_again houtcome⟩
    | overflow => exact absurd houtcome h.decode_ne_overflow
  · rcases h.exists_drain with ⟨messages, rest, hdrain⟩
    exact ⟨messages, rest, hdrain, drainAtEnd_of_drain hdrain⟩

def brokenStream : Bytes :=
  [Piece.junk (Utf8.encode "X: y".toList) .lf,
    Piece.frame (Utf8.encode "Content-Length: 6".toList) .crlf
      (Utf8.encode "a\n\nb: ".toList)].flatMap Piece.bytes ++
    Utf8.encode "Content-Length: 9\r\n\r\n\x7b\"a\"".toList

theorem decode_keeps_incomplete_broken :
    SumsFit 64 (mixedStream.flatMap Piece.bytes ++ brokenStream) ∧
      drainAtEnd 64 (mixedStream.flatMap Piece.bytes ++ brokenStream) =
        some ([.obj [], .null], []) ∧
      exists rest, decode 64 brokenStream = .wait rest ∧ Incomplete 64 rest ∧
        decode 64 rest = .wait rest := by
  have hfit : SumsFit 64 (mixedStream.flatMap Piece.bytes ++ brokenStream) :=
    sumsFit_of_length (by decide +kernel)
  refine ⟨hfit, ?_, ?_⟩
  · rcases (decode_keeps_incomplete 64 _ hfit).right with ⟨messages, rest, hdrain, hend⟩
    have hmessages : (drain 64 (mixedStream.flatMap Piece.bytes ++ brokenStream)).map (·.1) =
        some [.obj [], .null] := by
      decide +kernel
    rw [hdrain, Option.map_some, Option.some.injEq] at hmessages
    rw [hend, ← hmessages]
  · have hbroken : SumsFit 64 brokenStream := sumsFit_of_length (by decide +kernel)
    rcases (decode_keeps_incomplete 64 brokenStream hbroken).left with
      ⟨dropped, -, -, ⟨v, rest, header, blank, body, hmessage, -⟩
        | ⟨rest, hwait, -, hrest, hagain⟩⟩
    · have hwait : decode 64 brokenStream =
          .wait (Utf8.encode "Content-Length: 9\r\n\r\n\x7b\"a\"".toList) := by
        decide +kernel
      rw [hwait] at hmessage
      cases hmessage
    · exact ⟨rest, hwait, hrest, hagain⟩

end Frame
end LanguageClient
