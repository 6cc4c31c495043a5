import F2b.Csocket.Theorems.Conn
import F2b.Lib.Lines

-- What a client sends arrives in chunks, which may end anywhere in its lines.

namespace F2b

-- A connection with the daemon behind it, until it is closed.
structure Link (δ : Type) where
  alive  : Bool
  conn   : Conn
  daemon : δ

namespace Link

-- A call of `f2b_conn_process`: the bytes that `recv` gives, if there are any.
structure Call where
  chunk  : Option CString
  nonces : Nat → CString
  sent   : Conn.Sent

-- Chunks are not empty, as long as there is room for at most, and have printable bytes and blanks only.
structure Arrives (conn : Conn) (chunk : CString) : Prop where
  nonempty  : chunk ≠ []
  fits      : chunk.length ≤ conn.recv.size - conn.recv.data.length
  printable : ∀ c ∈ chunk, CString.isgraph c ∨ CString.isspace c

variable {δ : Type} (md5 : CString → CString) (cb : Cmd → δ → CString × δ)

-- The client takes what is sent to it.
def Step (s : Link δ) (c : Call) (s' : Link δ) : Prop :=
  s.alive ∧ (∀ chunk ∈ c.chunk, Arrives s.conn chunk) ∧ c.sent ≠ .error ∧
  s.conn.process md5 cb (c.chunk.map .data) c.nonces c.sent s.daemon = (!s'.alive, s'.conn, s'.daemon)

def start (type : Conn.SockType) (sock : Nat) (password nonce : CString) (daemon : δ) : Link δ where
  alive  := true
  conn   := .accept md5 type sock password nonce
  daemon := daemon

def stream (calls : List Call) : CString :=
  calls.flatMap (·.chunk.getD [])

variable {md5 cb}

theorem not_nul_mem {s : CString} (h : ∀ c ∈ s, CString.isgraph c ∨ CString.isspace c) : CString.nul ∉ s :=
  fun hm => absurd (h _ hm) (by decide)

theorem length_lt_of_split {s : CString} {n : Nat} (h : s.length ≤ n) :
    (∀ l ∈ (CString.split s).1, l.length < n) ∧ (CString.split s).2.length ≤ n := by
  have ⟨_, _, hj⟩ := CString.split_spec s
  have hl := congrArg List.length hj
  refine ⟨fun l hm => ?_, ?_⟩
  case refine_1 =>
    obtain ⟨_, _, he⟩ := List.append_of_mem hm
    simp only [he, CString.join, List.length_append, List.flatMap_append, List.flatMap_cons,
      List.length_singleton] at hl
    omega
  case refine_2 =>
    simp only [CString.join, List.length_append] at hl
    omega

theorem cut_eq {turns : Nat} {buf : Buf} (h : CString.nul ∉ buf.data) (ht : buf.data.length ≤ turns) :
    Session.cut turns buf = ((CString.split buf.data).1, { buf with data := (CString.split buf.data).2 }) := by
  induction turns generalizing buf
  case zero          =>
    have hd : buf.data = [] := List.eq_nil_of_length_eq_zero (Nat.le_zero.mp ht)
    obtain ⟨_, _⟩ := buf
    obtain rfl := hd
    rfl
  case succ turns hi =>
    obtain ⟨hn, he⟩ | ⟨line, rest, hn, hd, he⟩ := Buf.extract_eq h
    case inl => simp [Session.cut, he, CString.split_of_not_mem hn]
    case inr =>
      have h' : CString.nul ∉ rest := fun hm => h (by simp [hd, hm])
      have hl : rest.length ≤ turns := by
        simp only [hd, List.length_append, List.length_cons] at ht
        omega
      have hi := hi (show CString.nul ∉ (Buf.mk rest buf.size).data from h') hl
      simp [Session.cut, he, hi, hd, CString.split_line _ hn]

-- What a call makes of a chunk: the lines that it completes are handled, and the connection is closed if
-- the rest fills the buffer.
theorem receive_eq (md5 : CString → CString) (cb : Cmd → δ → CString × δ) (nonces : Nat → CString)
    {conn : Conn} {chunk : CString} (d : δ) (h : Arrives conn chunk) (hn : CString.nul ∉ conn.recv.data) :
    ∃ conn' d', conn.receive md5 cb nonces d (.data chunk) =
      (decide (conn.recv.size ≤ (CString.split (conn.recv.data ++ chunk)).2.length), conn', d') ∧
    conn'.recv = { conn.recv with data := (CString.split (conn.recv.data ++ chunk)).2 } ∧
    ∀ recv, Session.Dispatches md5 cb { conn with recv } d
      (Session.spoken (CString.split (conn.recv.data ++ chunk)).1) { conn' with recv } d' := by
  have hp : (CString.ofBuffer chunk).all fun c => CString.isgraph c || CString.isspace c := by
    rw [CString.ofBuffer_eq_self (not_nul_mem h.printable)]
    simpa using h.printable
  have ht : chunk.take (conn.recv.size - conn.recv.data.length) = chunk := List.take_of_length_le h.fits
  let buf : Buf := { conn.recv with data := conn.recv.data ++ chunk }
  have hb : conn.recv.append chunk = buf := by
    rw [Buf.append, ht]
  have hm : CString.nul ∉ buf.data := by
    simp [buf, hn, not_nul_mem h.printable]
  have hcut := cut_eq hm (Nat.le_refl _)
  have hd := fun recv =>
    (Session.dispatches_messages md5 cb nonces buf.data.length { conn with recv := buf } recv d).1
  have hr := (Session.dispatches_messages md5 cb nonces buf.data.length { conn with recv := buf } buf d).2
  rw [hcut] at hd hr
  refine ⟨_, _, ?_, hr, hd⟩
  simp only [Conn.receive, ht, h.nonempty, hp, hb, hr, if_false, not_true_eq_false, ge_iff_le]
  rfl

theorem transmit_ok (conn : Conn) {sent : Conn.Sent} (h : sent ≠ .error) :
    (conn.transmit sent).1 = false ∧ (conn.transmit sent).2.recv = conn.recv := by
  simp only [Conn.transmit]
  split
  case isTrue  => exact ⟨rfl, rfl⟩
  case isFalse => cases sent <;> simp_all

theorem process_eq {conn conn₁ conn' : Conn} {d d₁ d' : δ} {failed closed : Bool}
    {nonces : Nat → CString} {sent : Conn.Sent} (incoming : Option Conn.Recv) (he : sent ≠ .error)
    (hr : incoming.elim (false, conn, d) (conn.receive md5 cb nonces d) = (failed, conn₁, d₁))
    (hp : conn.process md5 cb incoming nonces sent d = (closed, conn', d')) :
    closed = failed ∧ conn'.recv = conn₁.recv ∧
    ∀ recv, Session.Dispatches md5 cb { conn₁ with recv } d₁ [] { conn' with recv } d' := by
  have ⟨hf, ht⟩ := transmit_ok conn₁ he
  have hp : (if failed then (true, conn₁, d₁) else ((conn₁.transmit sent).1, (conn₁.transmit sent).2, d₁)) =
      (closed, conn', d') := by
    rw [← hp]
    cases incoming
    case none   =>
      obtain ⟨rfl, rfl, rfl⟩ : false = failed ∧ conn = conn₁ ∧ d = d₁ := by simpa using hr
      rfl
    case some r =>
      rw [Option.elim_some] at hr
      simp only [Conn.process, hr]
  cases failed
  case true  =>
    obtain ⟨rfl, rfl, rfl⟩ : true = closed ∧ conn₁ = conn' ∧ d₁ = d' := by simpa using hp
    exact ⟨rfl, rfl, fun _ => .refl⟩
  case false =>
    obtain ⟨rfl, rfl, rfl⟩ : (conn₁.transmit sent).1 = closed ∧ (conn₁.transmit sent).2 = conn' ∧ d₁ = d' := by
      simpa using hp
    exact ⟨hf, ht, fun recv => Session.dispatches_transmit md5 cb conn₁ recv d₁ hf⟩

-- What has been handled of the stream so far, and what is left of it in the buffer.
structure Received (md5 : CString → CString) (cb : Cmd → δ → CString × δ) (conn₀ : Conn) (d₀ : δ)
    (calls : List Call) (s : Link δ) : Prop where
  lines : Session.Dispatches md5 cb conn₀ d₀ (Session.spoken (CString.split (stream calls)).1)
    { s.conn with recv := conn₀.recv } s.daemon
  recv  : s.conn.recv = ⟨(CString.split (stream calls)).2, RBUF_SIZE⟩
  text  : CString.nul ∉ (CString.split (stream calls)).2
  short : ∀ l ∈ (CString.split (stream calls)).1, l.length < RBUF_SIZE
  alive : s.alive = decide ((CString.split (stream calls)).2.length < RBUF_SIZE)

variable {conn₀ : Conn} {d₀ : δ} {calls : List Call} {s s' : Link δ} {c : Call}

theorem Received.step (h : Received md5 cb conn₀ d₀ calls s) (hs : s.Step md5 cb c s') :
    Received md5 cb conn₀ d₀ (calls ++ [c]) s' := by
  obtain ⟨ha, hc, he, hp⟩ := hs
  obtain ⟨chunk, nonces, sent⟩ := c
  have hst : stream (calls ++ [⟨chunk, nonces, sent⟩]) = stream calls ++ chunk.getD [] := by
    simp [stream]
  cases chunk
  case none       =>
    have ⟨hf, hr, hd⟩ := process_eq none he rfl hp
    have hf : s'.alive = s.alive := by simpa [ha] using hf
    rw [Option.getD_none, List.append_nil] at hst
    refine ⟨?_, hst ▸ hr.trans h.recv, hst ▸ h.text, hst ▸ h.short, hst ▸ hf.trans h.alive⟩
    rw [hst]
    simpa using h.lines.trans (hd conn₀.recv)
  case some chunk =>
    have hc := hc chunk rfl
    have ⟨conn₁, d₁, hrec, hrecv, hl⟩ := receive_eq md5 cb nonces s.daemon hc (h.recv ▸ h.text)
    have ⟨hf, hr, hd⟩ := process_eq (some (.data chunk)) he hrec hp
    have hfits : ((CString.split (stream calls)).2 ++ chunk).length ≤ RBUF_SIZE := by
      have := hc.fits
      have hlt := of_decide_eq_true (h.alive.symm.trans ha)
      simp only [h.recv] at this
      rw [List.length_append]
      omega
    have ⟨hlt, hle⟩ := length_lt_of_split hfits
    have hm : CString.nul ∉ (CString.split (stream calls)).2 ++ chunk := by
      simp [h.text, not_nul_mem hc.printable]
    have hsp := CString.split_append (stream calls) chunk
    have ht := (CString.split_spec ((CString.split (stream calls)).2 ++ chunk)).2.2
    simp only [h.recv] at hrecv hl hf
    rw [Option.getD_some] at hst
    rw [← hst] at hsp
    refine ⟨?_, ?_, ?_, ?_, ?_⟩ <;> simp only [hsp]
    case refine_1 =>
      rw [Session.spoken_append]
      simpa using h.lines.trans ((hl conn₀.recv).trans (hd conn₀.recv))
    case refine_2 => exact hr.trans hrecv
    case refine_3 => exact fun h0 => hm (ht ▸ List.mem_append_right _ h0)
    case refine_4 => exact List.forall_mem_append.mpr ⟨h.short, hlt⟩
    case refine_5 =>
      rw [← Bool.not_inj_iff, hf]
      simp only [← Nat.not_lt, decide_not]

-- However the stream is cut into chunks, the lines that are handled are its complete lines, what comes
-- after the last newline waits in the buffer, and the connection is closed when a line fills the buffer
-- without an end.
theorem lines_of_chunks {type : Conn.SockType} {sock : Nat} {password nonce : CString} {d : δ}
    (e : Transition.Steps (Step md5 cb) (start md5 type sock password nonce d) calls s) :
    Session.Dispatches md5 cb (.accept md5 type sock password nonce) d
      (Session.spoken (CString.split (stream calls)).1) { s.conn with recv := .alloc RBUF_SIZE } s.daemon ∧
    s.conn.recv.data = (CString.split (stream calls)).2 ∧
    (¬s.alive ↔ ∃ l ∈ (CString.split (stream calls)).2 :: (CString.split (stream calls)).1,
      RBUF_SIZE ≤ l.length) := by
  have h : Received md5 cb (.accept md5 type sock password nonce) d calls s := by
    have hn : Received md5 cb (.accept md5 type sock password nonce) d [] (start md5 type sock password nonce d) :=
      ⟨.refl, rfl, by simp [stream, CString.split], by simp [stream, CString.split], rfl⟩
    exact e.history (fun _ _ _ _ hs h => h.step hs) hn
  refine ⟨h.lines, by rw [h.recv], ?_⟩
  have hs : ¬∃ l ∈ (CString.split (stream calls)).1, RBUF_SIZE ≤ l.length := by
    rintro ⟨l, hl, hn⟩
    exact absurd (h.short l hl) (Nat.not_lt.mpr hn)
  simp only [h.alive, decide_eq_true_eq, Nat.not_lt, List.mem_cons, exists_eq_or_imp, hs, or_false]

section Example

-- A command that comes in two pieces, the second of which ends with the beginning of the next line.
def pieces : List Call :=
  ["sta", "tus\r\n\nhe"].map fun c => ⟨some c.toList, fun _ => [], .sent 5⟩

def linked (c : Call) (s : Link Nat) : Link Nat :=
  let (closed, conn, daemon) :=
    s.conn.process Session.digest Session.count (c.chunk.map .data) c.nonces c.sent s.daemon
  ⟨!closed, conn, daemon⟩

theorem process_linked (c : Call) (s : Link Nat) :
    s.conn.process Session.digest Session.count (c.chunk.map .data) c.nonces c.sent s.daemon =
    (!(linked c s).alive, (linked c s).conn, (linked c s).daemon) := by
  simp [linked]

def local₀ : Link Nat :=
  start Session.digest .unix 5 [] Session.nonce 0

theorem lines_of_pieces :
    ∃ s, Transition.Steps (Step Session.digest Session.count) local₀ pieces s ∧
    Session.Dispatches Session.digest Session.count local₀.conn 0 ["status".toList]
      { s.conn with recv := .alloc RBUF_SIZE } 1 ∧ s.conn.recv.data = "he".toList ∧ s.alive := by
  let s₁ := linked ⟨some "sta".toList, fun _ => [], .sent 5⟩ local₀
  let s₂ := linked ⟨some "tus\r\n\nhe".toList, fun _ => [], .sent 5⟩ s₁
  have h₁ : Step Session.digest Session.count local₀ ⟨some "sta".toList, fun _ => [], .sent 5⟩ s₁ := by
    refine ⟨rfl, ?_, by simp, process_linked ..⟩
    rintro _ ⟨⟩
    exact ⟨by decide, by decide, CString.forall_of_all (by decide)⟩
  have h₂ : Step Session.digest Session.count s₁ ⟨some "tus\r\n\nhe".toList, fun _ => [], .sent 5⟩ s₂ := by
    refine ⟨by decide, ?_, by simp, process_linked ..⟩
    rintro _ ⟨⟩
    exact ⟨by decide, by decide, CString.forall_of_all (by decide)⟩
  have e : Transition.Steps (Step Session.digest Session.count) local₀ pieces s₂ := .step h₁ (.step h₂ .refl)
  have ⟨hd, hr, _⟩ := lines_of_chunks e
  exact ⟨s₂, e, hd, hr, by decide⟩

end Example
end Link
end F2b
