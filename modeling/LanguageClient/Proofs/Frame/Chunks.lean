import LanguageClient.Frame.Decoder

/-!
# Chunk boundaries

A stream reaches the decoder in pieces of any size. A piece may end inside a header, inside
a blank line of either kind, inside a header that is to be skipped or inside a body. This
module shows that the pieces leave no trace: draining the buffer after each piece gives the
messages of the whole stream and leaves what the whole stream leaves.

The front of a buffer, once decided, stays decided whatever comes behind it. The two kinds
of blank line could only disturb each other if one began in a prefix and ended behind it; a
proper prefix of a blank line, however, holds no blank line of the other kind.
-/

namespace LanguageClient
namespace Frame

/-!
# More bytes behind a buffer

## Blank lines
-/

theorem blankLine?_append {bytes rest : Bytes} {size : Nat} (more : Bytes)
    (h : blankLine? bytes = some (size, rest)) :
    blankLine? (bytes ++ more) = some (size, rest ++ more) := by
  unfold blankLine? at h
  split at h
  · cases h
    rfl
  · cases h
    rfl
  · cases h

/-- A blank line that more bytes complete was begun by at most three bytes, in
which no other can end. -/
theorem blankLine?_append_none {b : UInt8} {rest : Bytes} {block : Block} (more : Bytes)
    (hnone : blankLine? (b :: rest) = none) (hblock : splitBlock rest = some block) :
    blankLine? (b :: rest ++ more) = none := by
  cases hmore : blankLine? (b :: rest ++ more) with
  | none => rfl
  | some found =>
      exfalso
      match rest, hblock with
      | [], hblock => simp [splitBlock] at hblock
      | [c], hblock => simp [splitBlock, blankLine?] at hblock
      | [c, d], hblock =>
          simp only [List.cons_append, List.nil_append] at hmore
          unfold blankLine? at hmore
          split at hmore
          next heq =>
            simp only [List.cons.injEq] at heq
            rcases heq with ⟨rfl, rfl, rfl, -⟩
            simp [splitBlock, blankLine?] at hblock
          next heq =>
            simp only [List.cons.injEq] at heq
            rcases heq with ⟨rfl, rfl, -⟩
            simp [blankLine?] at hnone
          next => cases hmore
      | c :: d :: e :: tail, _ =>
          simp only [List.cons_append] at hmore
          unfold blankLine? at hmore
          split at hmore
          next heq =>
            simp only [List.cons.injEq] at heq
            rcases heq with ⟨rfl, rfl, rfl, rfl, -⟩
            simp [blankLine?] at hnone
          next heq =>
            simp only [List.cons.injEq] at heq
            rcases heq with ⟨rfl, rfl, -⟩
            simp [blankLine?] at hnone
          next => cases hmore

theorem splitBlock_append {bytes : Bytes} {block : Block} (more : Bytes)
    (h : splitBlock bytes = some block) :
    splitBlock (bytes ++ more) = some { block with rest := block.rest ++ more } := by
  induction bytes generalizing block with
  | nil => simp [splitBlock] at h
  | cons b rest ih =>
      rw [splitBlock] at h
      cases hblank : blankLine? (b :: rest) with
      | some found =>
          rcases found with ⟨size, after⟩
          rw [hblank] at h
          cases h
          rw [List.cons_append, splitBlock, ← List.cons_append, blankLine?_append more hblank]
      | none =>
          rw [hblank] at h
          cases hinner : splitBlock rest with
          | none => simp [hinner] at h
          | some inner =>
              simp only [hinner, Option.some.injEq] at h
              rw [← h, List.cons_append, splitBlock, ← List.cons_append,
                blankLine?_append_none more hblank hinner, ih hinner]

/-!
## Fronts
-/

def Front.extend (more : Bytes) : Front -> Front
  | .wait => .wait
  | .skip rest => .skip (rest ++ more)
  | .body bytes rest => .body bytes (rest ++ more)
  | .overflow => .overflow

/-- A front that does not wait is there to stay. -/
theorem front_append {limit : Nat} {buffer : Bytes} (more : Bytes)
    (h : front limit buffer ≠ .wait) :
    front limit (buffer ++ more) = (front limit buffer).extend more := by
  unfold front at h ⊢
  cases hblock : splitBlock buffer with
  | none => simp [hblock] at h
  | some block =>
      rw [splitBlock_append more hblock]
      simp only [hblock] at h ⊢
      cases hsize : (bodyLength? block.header).filter (· ≤ limit) with
      | none => rfl
      | some size =>
          simp only [hsize] at h ⊢
          by_cases hwide : Unsigned.wordBound ≤ block.header.length + block.separator + size
          · rw [if_pos hwide, if_pos hwide]
            rfl
          · rw [if_neg hwide] at h ⊢
            rw [if_neg hwide]
            by_cases hshort : block.rest.length < size
            · exact absurd (if_pos hshort) h
            · have hsizeLe : size ≤ block.rest.length := Nat.le_of_not_lt hshort
              have hlong : ¬ (block.rest ++ more).length < size := by
                rw [List.length_append]
                omega
              rw [if_neg hshort, if_neg hlong, List.take_append_of_le_length hsizeLe,
                List.drop_append_of_le_length hsizeLe]
              rfl

theorem front_append_of_eq {limit : Nat} {buffer : Bytes} {found : Front} (more : Bytes)
    (h : front limit buffer = found) (hfound : found ≠ .wait) :
    front limit (buffer ++ more) = found.extend more := by
  rw [← h] at hfound ⊢
  exact front_append more hfound

/-!
## Calls of the decoder
-/

theorem decode_of_skip {limit : Nat} {buffer rest : Bytes}
    (h : front limit buffer = .skip rest) :
    decode limit buffer = decode limit rest := by
  rw [decode]
  split <;> simp_all

theorem decode_of_overflow {limit : Nat} {buffer : Bytes}
    (h : front limit buffer = .overflow) :
    decode limit buffer = .overflow := by
  rw [decode]
  split <;> simp_all

theorem decode_of_message {limit : Nat} {buffer bytes rest : Bytes} {v : Json}
    (h : front limit buffer = .body bytes rest) (hv : Json.parseBytes? bytes = some v) :
    decode limit buffer = .message v rest := by
  rw [decode]
  split <;> simp_all

theorem decode_of_dropped {limit : Nat} {buffer bytes rest : Bytes}
    (h : front limit buffer = .body bytes rest) (hv : Json.parseBytes? bytes = none) :
    decode limit buffer = decode limit rest := by
  rw [decode]
  split <;> simp_all

theorem decode_of_wait {limit : Nat} {buffer : Bytes} (h : front limit buffer = .wait) :
    decode limit buffer = .wait buffer := by
  rw [decode]
  split <;> simp_all

/-- What a call decides about a buffer it decides about every extension; if it has to wait,
it goes on from what it kept. -/
theorem decode_append (limit : Nat) (buffer more : Bytes) :
    decode limit (buffer ++ more) =
      match decode limit buffer with
      | .message v rest => .message v (rest ++ more)
      | .wait rest => decode limit (rest ++ more)
      | .overflow => .overflow := by
  fun_induction decode limit buffer with
  | case1 => rfl
  | case2 buffer hf => exact decode_of_overflow (front_append_of_eq more hf (by simp))
  | case3 buffer rest hf ih =>
      rw [decode_of_skip (front_append_of_eq more hf (by simp)), ih]
  | case4 buffer bytes rest hf v hv =>
      exact decode_of_message (front_append_of_eq more hf (by simp)) hv
  | case5 buffer bytes rest hf hv ih =>
      rw [decode_of_dropped (front_append_of_eq more hf (by simp)) hv, ih]

theorem decode_wait_again {limit : Nat} {buffer rest : Bytes}
    (h : decode limit buffer = .wait rest) : decode limit rest = .wait rest := by
  fun_induction decode limit buffer with
  | case1 buffer hf =>
      cases h
      exact decode_of_wait hf
  | case2 => cases h
  | case3 buffer next hf ih => exact ih h
  | case4 => cases h
  | case5 buffer bytes next hf hv ih => exact ih h

/-!
# Draining
-/

theorem drain_of_overflow {limit : Nat} {buffer : Bytes}
    (h : decode limit buffer = .overflow) :
    drain limit buffer = none := by
  rw [drain]
  split <;> simp_all

theorem drain_of_wait {limit : Nat} {buffer rest : Bytes}
    (h : decode limit buffer = .wait rest) :
    drain limit buffer = some ([], rest) := by
  rw [drain]
  split <;> simp_all

theorem drain_of_message {limit : Nat} {buffer rest : Bytes} {v : Json}
    (h : decode limit buffer = .message v rest) :
    drain limit buffer = (drain limit rest).map fun (vs, left) => (v :: vs, left) := by
  rw [drain]
  split <;> simp_all

theorem drain_congr {limit : Nat} {buffer other : Bytes}
    (h : decode limit buffer = decode limit other) :
    drain limit buffer = drain limit other := by
  cases hother : decode limit other with
  | message v rest => rw [drain_of_message (h.trans hother), drain_of_message hother]
  | wait rest => rw [drain_of_wait (h.trans hother), drain_of_wait hother]
  | overflow => rw [drain_of_overflow (h.trans hother), drain_of_overflow hother]

/-- Draining more bytes goes on where draining the buffer stopped. -/
theorem drain_append (limit : Nat) (buffer more : Bytes) :
    drain limit (buffer ++ more) =
      (drain limit buffer).bind fun (vs, rest) =>
        (drain limit (rest ++ more)).map fun (ws, left) => (vs ++ ws, left) := by
  fun_induction drain limit buffer with
  | case1 buffer hd =>
      exact drain_of_overflow (by rw [decode_append, hd])
  | case2 buffer rest hd =>
      have hdecode : decode limit (buffer ++ more) = decode limit (rest ++ more) := by
        rw [decode_append, hd]
      simp [drain_congr hdecode]
  | case3 buffer v rest hd ih =>
      have hdecode : decode limit (buffer ++ more) = .message v (rest ++ more) := by
        rw [decode_append, hd]
      rw [drain_of_message hdecode, ih]
      cases drain limit rest <;> simp [Function.comp_def]

theorem drain_again {limit : Nat} {buffer rest : Bytes} {messages : List Json}
    (h : drain limit buffer = some (messages, rest)) : drain limit rest = some ([], rest) := by
  fun_induction drain limit buffer generalizing messages with
  | case1 => cases h
  | case2 buffer left hd =>
      cases h
      exact drain_of_wait (decode_wait_again hd)
  | case3 buffer v next hd ih =>
      rcases Option.map_eq_some_iff.mp h with ⟨⟨vs, left⟩, hnext, heq⟩
      cases heq
      exact ih hnext

/-- Appends chunks one by one and drains after each. -/
def drainChunks (limit : Nat) (buffer : Bytes) : List Bytes → Option (List Json × Bytes)
  | [] => some ([], buffer)
  | chunk :: rest => do
    let (vs, buffer) ← drain limit (buffer ++ chunk)
    let (ws, buffer) ← drainChunks limit buffer rest
    return (vs ++ ws, buffer)

theorem drainChunks_of_drained {limit : Nat} {buffer : Bytes} (chunks : List Bytes)
    (h : drain limit buffer = some ([], buffer)) :
    drainChunks limit buffer chunks = drain limit (buffer ++ chunks.flatten) := by
  induction chunks generalizing buffer with
  | nil => rw [drainChunks, List.flatten_nil, List.append_nil, h]
  | cons chunk rest ih =>
      rw [List.flatten_cons, ← List.append_assoc, drain_append, drainChunks]
      cases hchunk : drain limit (buffer ++ chunk) with
      | none => rfl
      | some found =>
          rcases found with ⟨vs, left⟩
          have hrest := ih (drain_again hchunk)
          simp only [Option.bind_eq_bind, Option.bind_some, hrest]
          cases drain limit (left ++ rest.flatten) <;> rfl

/-!
# Sizes

The sum of header, blank line and body is formed in 64 bits. The decoder gives up only where
a block of the stream declares a body within the limit that makes the sum too large.
-/

/-- Wherever a header may be found in a stream, its sizes add up within 64 bits. -/
def SizesFit (limit : Nat) (stream : Bytes) : Prop :=
  forall bytes block size, bytes <:+ stream -> splitBlock bytes = some block ->
    bodyLength? block.header = some size -> size ≤ limit ->
      block.header.length + block.separator + size < Unsigned.wordBound

theorem sizesFit_of_length {limit : Nat} {stream : Bytes}
    (h : stream.length + limit < Unsigned.wordBound) : SizesFit limit stream := by
  intro bytes block size hsuffix hblock _ hsize
  have hlength := hsuffix.length_le
  have hparts := size_of_splitBlock hblock
  omega

theorem SizesFit.suffix {limit : Nat} {stream rest : Bytes} (h : SizesFit limit stream)
    (hrest : rest <:+ stream) : SizesFit limit rest := by
  intro bytes block size hsuffix
  exact h bytes block size (hsuffix.trans hrest)

theorem rest_suffix_of_splitBlock {bytes : Bytes} {block : Block}
    (h : splitBlock bytes = some block) : block.rest <:+ bytes := by
  induction bytes generalizing block with
  | nil => simp [splitBlock] at h
  | cons b rest ih =>
      rw [splitBlock] at h
      cases hblank : blankLine? (b :: rest) with
      | some found =>
          rw [hblank] at h
          cases h
          unfold blankLine? at hblank
          split at hblank
          next tail heq =>
            cases hblank
            rw [heq]
            exact ⟨[0x0D, 0x0A, 0x0D, 0x0A], rfl⟩
          next tail heq =>
            cases hblank
            rw [heq]
            exact ⟨[0x0A, 0x0A], rfl⟩
          next => cases hblank
      | none =>
          rw [hblank] at h
          cases hinner : splitBlock rest with
          | none => simp [hinner] at h
          | some inner =>
              simp only [hinner, Option.some.injEq] at h
              rw [← h]
              exact (ih hinner).trans (List.suffix_cons b rest)

def Front.rest? : Front -> Option Bytes
  | .skip rest => some rest
  | .body _ rest => some rest
  | .wait => none
  | .overflow => none

theorem rest_suffix_of_front {limit : Nat} {buffer rest : Bytes}
    (h : (front limit buffer).rest? = some rest) : rest <:+ buffer := by
  unfold front at h
  cases hblock : splitBlock buffer with
  | none => simp [hblock, Front.rest?] at h
  | some block =>
      have hsuffix := rest_suffix_of_splitBlock hblock
      simp only [hblock] at h
      split at h
      · cases h
        exact hsuffix
      · split at h
        · cases h
        · split at h
          · cases h
          · cases h
            exact (List.drop_suffix _ _).trans hsuffix

theorem front_ne_overflow {limit : Nat} {buffer : Bytes} (h : SizesFit limit buffer) :
    front limit buffer ≠ .overflow := by
  intro hfront
  unfold front at hfront
  cases hblock : splitBlock buffer with
  | none => simp [hblock] at hfront
  | some block =>
      simp only [hblock] at hfront
      cases hsize : (bodyLength? block.header).filter (· ≤ limit) with
      | none => simp [hsize] at hfront
      | some size =>
          rcases Option.filter_eq_some_iff.mp hsize with ⟨hlength, hlimit⟩
          have hfit := h buffer block size (List.suffix_refl buffer) hblock hlength
            (by simpa using hlimit)
          rw [hsize] at hfront
          simp only [if_neg (Nat.not_le_of_lt hfit)] at hfront
          split at hfront <;> cases hfront

theorem decode_rest_suffix {limit : Nat} {buffer rest : Bytes} {v : Json}
    (h : decode limit buffer = .message v rest) : rest <:+ buffer := by
  fun_induction decode limit buffer with
  | case1 => cases h
  | case2 => cases h
  | case3 buffer next hf ih => exact (ih h).trans (rest_suffix_of_front (by rw [hf]; rfl))
  | case4 buffer bytes next hf w hw =>
      cases h
      exact rest_suffix_of_front (by rw [hf]; rfl)
  | case5 buffer bytes next hf hv ih =>
      exact (ih h).trans (rest_suffix_of_front (by rw [hf]; rfl))

theorem decode_ne_overflow {limit : Nat} {buffer : Bytes} (h : SizesFit limit buffer) :
    decode limit buffer ≠ .overflow := by
  fun_induction decode limit buffer with
  | case1 => simp
  | case2 buffer hf => exact absurd hf (front_ne_overflow h)
  | case3 buffer rest hf ih => exact ih (h.suffix (rest_suffix_of_front (by rw [hf]; rfl)))
  | case4 => simp
  | case5 buffer bytes rest hf hv ih =>
      exact ih (h.suffix (rest_suffix_of_front (by rw [hf]; rfl)))

theorem exists_drain {limit : Nat} {buffer : Bytes} (h : SizesFit limit buffer) :
    exists messages rest, drain limit buffer = some (messages, rest) := by
  fun_induction drain limit buffer with
  | case1 buffer hd => exact absurd hd (decode_ne_overflow h)
  | case2 buffer rest hd => exact ⟨[], rest, rfl⟩
  | case3 buffer v rest hd ih =>
      rcases ih (h.suffix (decode_rest_suffix hd)) with ⟨messages, left, hrest⟩
      exact ⟨v :: messages, left, by rw [hrest]; rfl⟩

/-!
# Independence of chunk boundaries
-/

/-- However a stream is cut, its chunks give the messages of the whole and leave the bytes
that the whole leaves. This holds of a stream whose sizes do not fit as well, where both
sides give up; where the sizes fit, neither does. -/
theorem drainChunks_eq_drain_flatten (limit : Nat) (chunks : List Bytes) :
    drainChunks limit [] chunks = drain limit chunks.flatten ∧
      (SizesFit limit chunks.flatten ->
        exists messages rest, drainChunks limit [] chunks = some (messages, rest)) := by
  have hempty : drain limit [] = some ([], []) := drain_of_wait (decode_of_wait rfl)
  have hchunks := drainChunks_of_drained chunks hempty
  rw [List.nil_append] at hchunks
  constructor
  · exact hchunks
  · intro hfit
    rw [hchunks]
    exact exists_drain hfit

theorem drainChunks_cut_in_blank_line :
    drainChunks 64 [] [Utf8.encode "Content-Length: 2\r\n\r".toList,
      Utf8.encode "\n{}Con".toList] =
        some ([.obj []], Utf8.encode "Con".toList) ∧
      exists messages rest,
        drainChunks 64 []
          [Utf8.encode "Content-Length: 2\r\n\r".toList, Utf8.encode "\n{}Con".toList] =
            some (messages, rest) := by
  constructor
  · rw [(drainChunks_eq_drain_flatten 64 _).left]
    decide +kernel
  · exact (drainChunks_eq_drain_flatten 64 _).right (sizesFit_of_length (by decide +kernel))

end Frame
end LanguageClient
