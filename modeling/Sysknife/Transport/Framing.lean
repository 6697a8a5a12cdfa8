import Mathlib.Algebra.Group.Nat.Defs
import Sysknife.Lib.Bytes
import Sysknife.Lib.Reading

/-!
# Framed messages

Messages on the daemon's socket are framed by their length, four bytes with the lowest first.
`send` writes a frame, `recv` reads one: the length, then the body in chunks.

`recv` answers with a message exactly if the stream begins with its frame (`recv_of_frame`,
`frame_of_recv`), so a sequence of messages is received as it was sent, however the transport
cuts it up, and what is not a whole frame within the limit is refused (`framing_round_trip`).
-/

namespace Sysknife.Transport

/-- Largest body of a message. -/
def maxMessageBytes : ℕ := 4 * 1024 * 1024

/-- Most bytes of a body that are asked for at once. -/
def readChunkBytes : ℕ := 64 * 1024

inductive FramingError
  | messageTooLarge (bytes : ℕ)
  | unexpectedEof
  | io (message : String)
  deriving DecidableEq, Repr

/-- A stream being received; it may fail once its bytes are read. -/
abbrev FramedStream := Source UInt8 String

def FramingError.ofShortage : Shortage String → FramingError
  | .endOfStream => .unexpectedEof
  | .failed message => .io message

/-! ### Lengths -/

/-- `u32::to_le_bytes` -/
def toLeBytes (n : ℕ) : Bytes :=
  [UInt8.ofNat n, UInt8.ofNat (n / 256), UInt8.ofNat (n / 256 ^ 2), UInt8.ofNat (n / 256 ^ 3)]

/-- `u32::from_le_bytes` -/
def fromLeBytes (bytes : Bytes) : ℕ := bytes.foldr (fun b n => b.toNat + 256 * n) 0

@[simp] theorem length_toLeBytes (n : ℕ) : (toLeBytes n).length = 4 := rfl

theorem fromLeBytes_toLeBytes {n : ℕ} (h : n < 2 ^ 32) : fromLeBytes (toLeBytes n) = n := by
  simp only [fromLeBytes, toLeBytes, List.foldr_cons, List.foldr_nil, UInt8.toNat_ofNat']
  omega

/-- Four bytes are the bytes of the length they stand for. -/
theorem toLeBytes_fromLeBytes {bytes : Bytes} (h : bytes.length = 4) :
    toLeBytes (fromLeBytes bytes) = bytes := by
  obtain ⟨a, b, c, d, rfl⟩ : ∃ a b c d, bytes = [a, b, c, d] := by
    match bytes, h with
    | [a, b, c, d], _ => exact ⟨a, b, c, d, rfl⟩
  have ha := a.toNat_lt
  have hb := b.toNat_lt
  have hc := c.toNat_lt
  have hd := d.toNat_lt
  simp only [fromLeBytes, toLeBytes, List.foldr_cons, List.foldr_nil, List.cons.injEq, and_true]
  refine ⟨?_, ?_, ?_, ?_⟩
  all_goals
    refine UInt8.toNat_inj.mp ?_
    rw [UInt8.toNat_ofNat']
    omega

/-! ### Sending and receiving -/

/-- The bytes of a message on the wire. -/
def frame (data : Bytes) : Bytes := toLeBytes data.length ++ data

/-- The bytes `send` writes. -/
def send (data : Bytes) : Except FramingError Bytes :=
  if data.length > maxMessageBytes then .error (.messageTooLarge data.length)
  else .ok (toLeBytes (data.length % 2 ^ 32) ++ data)

/-- The bytes of several messages sent one after the other. -/
def sendAll : List Bytes → Except FramingError Bytes
  | [] => .ok []
  | data :: rest => do
    let sent ← send data
    let later ← sendAll rest
    return sent ++ later

/-- `read_exact` of `n` bytes. -/
def readExact (n : ℕ) (s : FramedStream) : Except FramingError (Bytes × FramedStream) :=
  (s.fill n n).mapError .ofShortage

/-- Receive one message. The body is read in chunks until all of it has arrived. -/
def recv (s : FramedStream) : Except FramingError (Bytes × FramedStream) := do
  let (header, s) ← readExact 4 s
  let len := fromLeBytes header
  if len > maxMessageBytes then .error (.messageTooLarge len)
  else (s.fill readChunkBytes len).mapError .ofShortage

/-- Receive `n` messages, one after the other. -/
def recvMany : ℕ → FramedStream → Except FramingError (List Bytes × FramedStream)
  | 0, s => .ok ([], s)
  | n + 1, s => do
    let (data, s) ← recv s
    let (rest, s) ← recvMany n s
    return (data :: rest, s)

theorem maxMessageBytes_lt : maxMessageBytes < 2 ^ 32 := by decide

/-- A message within the limit is sent as its frame. -/
theorem send_eq_frame {data : Bytes} (h : data.length ≤ maxMessageBytes) :
    send data = .ok (frame data) := by
  have hlt : data.length < 2 ^ 32 := Nat.lt_of_le_of_lt h maxMessageBytes_lt
  rw [send, if_neg (Nat.not_lt.mpr h), frame, Nat.mod_eq_of_lt hlt]

theorem sendAll_eq_frames {messages : List Bytes}
    (h : ∀ data ∈ messages, data.length ≤ maxMessageBytes) :
    sendAll messages = .ok (messages.flatMap frame) := by
  induction messages with
  | nil => rfl
  | cons data rest ih =>
    have hrest := ih fun m hm => h m (List.mem_cons_of_mem data hm)
    rw [sendAll, send_eq_frame (h data List.mem_cons_self), hrest]
    rfl

/-! ### One message -/

/-- The length that is read first. -/
theorem readExact_header {s : FramedStream} {n : ℕ} {rest : Bytes}
    (h : s.symbols = toLeBytes n ++ rest) :
    ∃ t, readExact 4 s = .ok (toLeBytes n, t) ∧ t.symbols = rest := by
  have hlen : 4 ≤ s.symbols.length := by
    rw [h, List.length_append, length_toLeBytes]
    omega
  obtain ⟨t, hfill, hrest, -⟩ := Source.fill_of_le (by decide : 0 < 4) hlen
  have htake : s.symbols.take 4 = toLeBytes n := by
    rw [h]
    exact List.take_left' (length_toLeBytes n)
  refine ⟨t, ?_, ?_⟩
  · rw [readExact, hfill, htake]
    rfl
  · rw [hrest, h]
    exact List.drop_left' (length_toLeBytes n)

/-- A frame at the beginning of the stream is received, and what follows it is left. -/
theorem recv_of_frame {s : FramedStream} {data rest : Bytes} (hdata : data.length ≤ maxMessageBytes)
    (h : s.symbols = frame data ++ rest) : ∃ t, recv s = .ok (data, t) ∧ t.symbols = rest := by
  rw [frame, List.append_assoc] at h
  obtain ⟨t, hheader, ht⟩ := readExact_header h
  have hlen : data.length ≤ t.symbols.length := by
    rw [ht, List.length_append]
    omega
  obtain ⟨u, hbody, hu, -⟩ := Source.fill_of_le (by decide : 0 < readChunkBytes) hlen
  have hlt : data.length < 2 ^ 32 := Nat.lt_of_le_of_lt hdata maxMessageBytes_lt
  refine ⟨u, ?_, ?_⟩
  · rw [recv, hheader]
    simp only [bind, Except.bind, fromLeBytes_toLeBytes hlt]
    rw [if_neg (Nat.not_lt.mpr hdata), hbody, ht, List.take_left' rfl]
    rfl
  · rw [hu, ht]
    exact List.drop_left' rfl

theorem mapError_eq_ok {ε ε' α : Type} {f : ε → ε'} {x : Except ε α} {a : α}
    (h : x.mapError f = .ok a) : x = .ok a := by
  cases x with
  | error e => cases h
  | ok b => exact congrArg Except.ok (Except.ok.inj h)

/-- What is received is a frame at the beginning of the stream, whole and nothing more. -/
theorem frame_of_recv {s t : FramedStream} {data : Bytes} (h : recv s = .ok (data, t)) :
    data.length ≤ maxMessageBytes ∧ s.symbols = frame data ++ t.symbols := by
  unfold recv at h
  cases hheader : readExact 4 s with
  | error e => simp [hheader, bind, Except.bind] at h
  | ok r =>
    obtain ⟨header, u⟩ := r
    obtain ⟨hfour, hs, -⟩ := Source.symbols_of_fill (by decide : 0 < 4) (mapError_eq_ok hheader)
    simp only [hheader, bind, Except.bind] at h
    split_ifs at h with hlarge
    obtain ⟨hlen, hu, -⟩ :=
      Source.symbols_of_fill (by decide : 0 < readChunkBytes) (mapError_eq_ok h)
    refine ⟨?_, ?_⟩
    · rw [hlen]
      exact Nat.not_lt.mp hlarge
    · rw [hs, hu, frame, hlen, toLeBytes_fromLeBytes hfour, List.append_assoc]

/-- A length above the limit is refused as soon as it is read. -/
theorem recv_of_large {s : FramedStream} {n : ℕ} {rest : Bytes} (hlarge : maxMessageBytes < n)
    (hn : n < 2 ^ 32) (h : s.symbols = toLeBytes n ++ rest) :
    recv s = .error (.messageTooLarge n) := by
  obtain ⟨t, hheader, -⟩ := readExact_header h
  rw [recv, hheader]
  simp only [bind, Except.bind, fromLeBytes_toLeBytes hn]
  rw [if_pos hlarge]

/-- A stream that ends within a frame is refused. -/
theorem recv_of_truncated {s : FramedStream} {data : Bytes} (hdata : data.length ≤ maxMessageBytes)
    (hcut : s.symbols <+: frame data) (hne : s.symbols ≠ frame data) :
    ∃ e, recv s = .error e := by
  cases hrecv : recv s with
  | error e => exact ⟨e, rfl⟩
  | ok r =>
    obtain ⟨body, t⟩ := r
    obtain ⟨hbody, hs⟩ := frame_of_recv hrecv
    -- a whole frame that begins another one is that one
    obtain ⟨cut, hcut⟩ := hcut
    rw [hs, frame, frame, List.append_assoc, List.append_assoc] at hcut
    obtain ⟨hlen, hrest⟩ := List.append_inj hcut rfl
    have hlengths : body.length = data.length := by
      have hb := fromLeBytes_toLeBytes (Nat.lt_of_le_of_lt hbody maxMessageBytes_lt)
      have hd := fromLeBytes_toLeBytes (Nat.lt_of_le_of_lt hdata maxMessageBytes_lt)
      rw [← hb, hlen, hd]
    obtain ⟨rfl, hempty⟩ := List.append_inj (hrest.trans (List.append_nil data).symm) hlengths
    obtain ⟨ht, -⟩ := List.append_eq_nil_iff.mp hempty
    exact absurd (by rw [hs, ht, List.append_nil]) hne

/-! ### Any number of messages -/

theorem recvMany_of_frames {messages : List Bytes}
    (hmessages : ∀ data ∈ messages, data.length ≤ maxMessageBytes) {s : FramedStream} {rest : Bytes}
    (h : s.symbols = messages.flatMap frame ++ rest) :
    ∃ t, recvMany messages.length s = .ok (messages, t) ∧ t.symbols = rest := by
  induction messages generalizing s with
  | nil => exact ⟨s, rfl, h⟩
  | cons data later ih =>
    rw [List.flatMap_cons, List.append_assoc] at h
    obtain ⟨t, hrecv, ht⟩ := recv_of_frame (hmessages data List.mem_cons_self) h
    obtain ⟨u, hlater, hu⟩ := ih (fun m hm => hmessages m (List.mem_cons_of_mem data hm)) ht
    refine ⟨u, ?_, hu⟩
    rw [List.length_cons, recvMany, hrecv]
    simp only [bind, Except.bind, hlater]
    rfl

/-- **Messages are received as they were sent.** What was sent is received message by message,
however it was cut into pieces; after that, a stream that ends within a frame or announces too
long a body is refused; and whatever is received was a frame on the stream. -/
theorem framing_round_trip (messages : List Bytes)
    (hmessages : ∀ data ∈ messages, data.length ≤ maxMessageBytes) :
    ∃ sent, sendAll messages = .ok sent ∧ ∀ (s : FramedStream) (rest : Bytes),
      s.symbols = sent ++ rest → ∃ t, recvMany messages.length s = .ok (messages, t) ∧
        t.symbols = rest ∧
        (∀ data, data.length ≤ maxMessageBytes → rest <+: frame data → rest ≠ frame data →
          ∃ e, recv t = .error e) ∧
        (∀ n body, maxMessageBytes < n → n < 2 ^ 32 → rest = toLeBytes n ++ body →
          recv t = .error (.messageTooLarge n)) ∧
        ∀ data u, recv t = .ok (data, u) →
          data.length ≤ maxMessageBytes ∧ rest = frame data ++ u.symbols := by
  refine ⟨_, sendAll_eq_frames hmessages, fun s rest hs => ?_⟩
  obtain ⟨t, hrecv, rfl⟩ := recvMany_of_frames hmessages hs
  exact ⟨t, hrecv, rfl, fun data hdata hcut hne => recv_of_truncated hdata hcut hne,
    fun n body hlarge hn h => recv_of_large hlarge hn h, fun data u h => frame_of_recv h⟩

theorem framing_round_trip_two : ∃ sent, sendAll [[1, 2], []] = .ok sent ∧ ∀ s : FramedStream,
    s.symbols = sent → ∃ t, recvMany 2 s = .ok ([[1, 2], []], t) ∧ t.symbols = [] := by
  have hmessages : ∀ data ∈ [[1, 2], ([] : Bytes)], data.length ≤ maxMessageBytes := by decide
  obtain ⟨sent, hsent, hrecv⟩ := framing_round_trip [[1, 2], []] hmessages
  refine ⟨sent, hsent, fun s hs => ?_⟩
  obtain ⟨t, ht, hrest, -⟩ := hrecv s [] (by rw [hs, List.append_nil])
  exact ⟨t, ht, hrest⟩

end Sysknife.Transport
