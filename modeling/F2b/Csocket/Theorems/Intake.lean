import F2b.Csocket.Theorems.Chunks

-- What is checked of the bytes that a client sends, and what gets into the receive buffer.

namespace F2b.Intake

open CString (nul ofBuffer)

section Definitions

variable {δ : Type} (md5 : CString → CString) (cb : Cmd → δ → CString × δ)

def printable (c : Char) : Bool :=
  CString.isgraph c || CString.isspace c

-- What a call of `recv` takes of the bytes that wait.
def chunk (conn : Conn) (bytes : List Char) : List Char :=
  bytes.take (conn.recv.size - conn.recv.data.length)

-- The chunk is appended, and the lines that are complete then are handled.
def taken (conn : Conn) (nonces : Nat → CString) (d : δ) (bytes : List Char) : Bool × Conn × δ :=
  let recv := conn.recv.append (chunk conn bytes)
  let (conn, d) := { conn with recv }.messages md5 cb nonces recv.data.length d
  (decide (conn.recv.data.length ≥ conn.recv.size), conn, d)

-- A chunk is taken if all of it is printable. Else the connection is closed, and nothing is done.
def Checked (conn : Conn) (nonces : Nat → CString) (d : δ) (bytes : List Char) : Prop :=
  chunk conn bytes ≠ [] → conn.receive md5 cb nonces d (.data bytes) =
    if (chunk conn bytes).all printable then taken md5 cb conn nonces d bytes else (true, conn, d)

-- There is no NUL in the chunk, or something else before it that is not printable.
def Sane (conn : Conn) (bytes : List Char) : Prop :=
  nul ∈ chunk conn bytes → ∃ c ∈ ofBuffer (chunk conn bytes), ¬printable c

inductive Turn
  | process (incoming : Option Conn.Recv) (nonces : Nat → CString) (sent : Conn.Sent)
  | event (evt : CString)

def Step (s : Conn × δ) (t : Turn) (s' : Conn × δ) : Prop :=
  match t with
  | .process incoming nonces sent => s.1.process md5 cb incoming nonces sent s.2 = (false, s')
  | .event evt                    => s' = (s.1.event evt, s.2)

def SaneTurn (s : Conn × δ) : Turn → Prop
  | .process (some (.data bytes)) _ _ => Sane s.1 bytes
  | _                                 => True

end Definitions

section Nul

variable {buf rest : Buf} {line : CString}

theorem count_extract (h : buf.extract = some (line, rest)) : rest.data.count nul = buf.data.count nul := by
  rw [Buf.extract] at h
  cases hc : (ofBuffer buf.data).strchr '\n'
  case none     => rw [hc] at h; cases h
  case some len =>
    rw [hc] at h
    obtain ⟨_, rfl⟩ := Prod.mk.inj (Option.some.inj h)
    obtain ⟨u, v, he, _, rfl⟩ := CString.strchr_eq_some_iff.mp hc
    obtain ⟨t, ht⟩ := CString.ofBuffer_prefix buf.data
    have hu : nul ∉ u ++ ['\n'] := by
      have := CString.nul_not_mem_ofBuffer buf.data
      rw [he] at this
      simp at this ⊢
      exact ⟨this.1, by decide⟩
    have hd : buf.data = (u ++ ['\n']) ++ (v ++ t) := by rw [← ht, he]; simp
    have hl : (u ++ ['\n']).length = u.length + 1 := by simp
    have hc : (u ++ ['\n'] ++ (v ++ t)).count nul = (v ++ t).count nul := by
      rw [List.count_append, List.count_eq_zero.mpr hu, Nat.zero_add]
    rw [Buf.splice, hd, ← hl, List.drop_left, hc]

theorem count_cut (turns : Nat) (buf : Buf) : (Session.cut turns buf).2.data.count nul = buf.data.count nul := by
  induction turns generalizing buf
  case zero          => rfl
  case succ turns hi =>
    rw [Session.cut]
    cases he : buf.extract
    case none   => rfl
    case some r => exact (hi r.2).trans (count_extract he)

end Nul

section Chunk

variable {δ : Type} {md5 : CString → CString} {cb : Cmd → δ → CString × δ}
variable {conn : Conn} {nonces : Nat → CString} {d : δ} {bytes : List Char}

theorem count_taken (md5 : CString → CString) (cb : Cmd → δ → CString × δ) (conn : Conn) (nonces : Nat → CString)
    (d : δ) (bytes : List Char) :
    (taken md5 cb conn nonces d bytes).2.1.recv.data.count nul =
    conn.recv.data.count nul + (chunk conn bytes).count nul := by
  let recv := conn.recv.append (chunk conn bytes)
  have hm : (taken md5 cb conn nonces d bytes).2.1.recv = (Session.cut recv.data.length recv).2 :=
    (Session.dispatches_messages md5 cb nonces recv.data.length { conn with recv } recv d).2
  have hr : recv.data = conn.recv.data ++ chunk conn bytes := by
    have hc : (chunk conn bytes).take (conn.recv.size - conn.recv.data.length) = chunk conn bytes :=
      List.take_of_length_le (List.length_take_le ..)
    exact congrArg (conn.recv.data ++ ·) hc
  rw [hm, count_cut, hr, List.count_append]

theorem receive_eq (md5 : CString → CString) (cb : Cmd → δ → CString × δ) (conn : Conn) (nonces : Nat → CString)
    (d : δ) (bytes : List Char) :
    conn.receive md5 cb nonces d (.data bytes) =
    if chunk conn bytes = [] then (true, conn, d)
    else if (ofBuffer (chunk conn bytes)).all printable then taken md5 cb conn nonces d bytes
    else (true, conn, d) := by
  rw [← ite_not ((ofBuffer (chunk conn bytes)).all printable = true)]
  rfl

theorem checked_iff_sane (md5 : CString → CString) (cb : Cmd → δ → CString × δ) (conn : Conn) (nonces : Nat → CString)
    (d : δ) (bytes : List Char) : Checked md5 cb conn nonces d bytes ↔ Sane conn bytes := by
  by_cases hc : chunk conn bytes = []
  case pos => simp [Checked, Sane, hc]
  case neg =>
    have he : Checked md5 cb conn nonces d bytes ↔
        (if (ofBuffer (chunk conn bytes)).all printable then taken md5 cb conn nonces d bytes else (true, conn, d)) =
        if (chunk conn bytes).all printable then taken md5 cb conn nonces d bytes else (true, conn, d) := by
      rw [Checked, receive_eq, if_neg hc]
      exact ⟨fun h => h hc, fun h _ => h⟩
    rw [he, Sane]
    by_cases hp : (ofBuffer (chunk conn bytes)).all printable
    case neg =>
      have ha : ¬(chunk conn bytes).all printable := by
        intro ha
        exact hp (List.all_eq_true.mpr fun c hm => List.all_eq_true.mp ha c ((CString.ofBuffer_prefix _).subset hm))
      have hs : ∃ c ∈ ofBuffer (chunk conn bytes), ¬printable c := by simpa using hp
      simp only [if_neg hp, if_neg ha, true_iff]
      exact fun _ => hs
    case pos =>
      rw [if_pos hp]
      by_cases hn : nul ∈ chunk conn bytes
      case neg =>
        have ha : (chunk conn bytes).all printable := CString.ofBuffer_eq_self hn ▸ hp
        simp [ha, hn]
      case pos =>
        have ha : ¬(chunk conn bytes).all printable := fun ha => absurd (List.all_eq_true.mp ha nul hn) (by decide)
        have hs : ¬∃ c ∈ ofBuffer (chunk conn bytes), ¬printable c := by simpa using hp
        have ht : taken md5 cb conn nonces d bytes ≠ (true, conn, d) := by
          intro he
          have := count_taken md5 cb conn nonces d bytes
          have := List.count_pos_iff.mpr hn
          simp only [he] at *
          omega
        simp only [if_neg ha, ht, false_iff]
        exact fun h => hs (h hn)

end Chunk

section Run

variable {δ : Type} {md5 : CString → CString} {cb : Cmd → δ → CString × δ}
variable {conn : Conn} {nonces : Nat → CString} {sent : Conn.Sent} {d : δ} {bytes : List Char}
variable {s₀ s s' : Conn × δ} {t : Turn} {ts : List Turn}

theorem recv_transmit (conn : Conn) (sent : Conn.Sent) : (conn.transmit sent).2.recv = conn.recv := by
  simp only [Conn.transmit]
  split
  case isTrue  => rfl
  case isFalse => cases sent <;> rfl

theorem transmit_of_process {incoming : Option Conn.Recv}
    (h : conn.process md5 cb incoming nonces sent d = (false, s')) :
    (incoming.elim (false, conn, d) (conn.receive md5 cb nonces d)).1 = false ∧
    s'.1 = ((incoming.elim (false, conn, d) (conn.receive md5 cb nonces d)).2.1.transmit sent).2 := by
  have hp : conn.process md5 cb incoming nonces sent d =
      let r := incoming.elim (false, conn, d) (conn.receive md5 cb nonces d)
      if r.1 then (true, r.2) else ((r.2.1.transmit sent).1, (r.2.1.transmit sent).2, r.2.2) := by
    cases incoming <;> rfl
  rw [hp] at h
  generalize incoming.elim (false, conn, d) (conn.receive md5 cb nonces d) = r at h ⊢
  cases hr : r.1
  case true  => simp only [hr, if_true, Prod.mk.injEq, Bool.true_eq_false, false_and] at h
  case false =>
    simp only [hr, Bool.false_eq_true, if_false, Prod.mk.injEq] at h
    exact ⟨rfl, by rw [← h.2]⟩

theorem nul_mem_step_iff (h : Step md5 cb s t s') :
    nul ∈ s'.1.recv.data ↔ nul ∈ s.1.recv.data ∨ ¬SaneTurn s t := by
  cases t
  case event evt =>
    obtain rfl := h
    have hr : (s.1.event evt).recv = s.1.recv := by
      rw [Conn.event]
      split <;> rfl
    simp [SaneTurn, hr]
  case process incoming nonces sent =>
    obtain ⟨hf, ht⟩ := transmit_of_process h
    rw [ht, recv_transmit]
    cases incoming
    case none   => simp [SaneTurn]
    case some r =>
      cases r
      case error      => cases hf
      case data bytes =>
        have hc : chunk s.1 bytes ≠ [] := by
          intro hc
          rw [Option.elim_some, receive_eq, if_pos hc] at hf
          cases hf
        rw [Option.elim_some, receive_eq, if_neg hc] at hf ⊢
        by_cases hp : (ofBuffer (chunk s.1 bytes)).all printable
        case neg => rw [if_neg hp] at hf; cases hf
        case pos =>
          have hs : ¬Sane s.1 bytes ↔ nul ∈ chunk s.1 bytes := by
            have hn : ¬∃ c ∈ ofBuffer (chunk s.1 bytes), ¬printable c := by simpa using hp
            rw [Sane, Classical.not_imp]
            exact and_iff_left hn
          rw [if_pos hp, SaneTurn, hs, ← List.count_pos_iff, count_taken]
          simp only [← List.count_pos_iff]
          omega

-- Up to the first chunk that is not sane there is none in the buffer, and from then on there is one.
theorem nul_not_mem_iff (hs : nul ∉ s.1.recv.data) (e : Transition.Steps (Step md5 cb) s ts s') :
    nul ∉ s'.1.recv.data ↔ Transition.Steps (Transition.Guarded (Step md5 cb) SaneTurn) s ts s' := by
  constructor
  case mp  =>
    clear hs
    induction e
    case refl                => exact fun _ => .refl
    case step s₁ s₂ s₃ i is h e hi =>
      intro hn
      have hn₂ : nul ∉ s₂.1.recv.data := fun hm => hn <|
        e.invariant (P := fun s => nul ∈ s.1.recv.data) (fun _ _ _ h hm => (nul_mem_step_iff h).mpr (.inl hm)) hm
      have hg : SaneTurn s₁ i := by
        by_contra hg
        exact hn₂ ((nul_mem_step_iff h).mpr (.inr hg))
      exact .step ⟨h, hg⟩ (hi hn)
  case mpr =>
    intro e
    refine e.invariant (P := fun s => nul ∉ s.1.recv.data) (fun _ _ _ h hn hm => ?_) hs
    obtain hm | hg := (nul_mem_step_iff h.1).mp hm
    case inl => exact hn hm
    case inr => exact hg h.2

-- In every run of a connection, the buffer is without a NUL exactly as long as the chunks are sane, and the
-- next chunk, whatever the connection, is checked exactly if it is.
theorem checked_iff {type : Conn.SockType} {sock : Nat} {password nonce : CString} {d₀ : δ}
    (e : Transition.Steps (Step md5 cb) (.accept md5 type sock password nonce, d₀) ts s) (conn : Conn)
    (nonces : Nat → CString) (d : δ) (bytes : List Char) :
    (nul ∉ s.1.recv.data ↔
      Transition.Steps (Transition.Guarded (Step md5 cb) SaneTurn) (.accept md5 type sock password nonce, d₀) ts s) ∧
    (Checked md5 cb conn nonces d bytes ↔ Sane conn bytes) :=
  ⟨nul_not_mem_iff (by simp [Conn.accept, Conn.updateChallenge, Buf.alloc]) e, checked_iff_sane ..⟩

end Run

section Example

open Session (digest count)

def client : Conn :=
  .accept digest .unix 5 [] Session.nonce

def after (bytes : String) : Conn × Nat :=
  (client.process digest count (some (.data bytes.toList)) (fun _ => []) (.sent 5) 0).2

theorem checked_iff_status :
    (nul ∉ (after "status\nhe").1.recv.data ↔
      Transition.Steps (Transition.Guarded (Step digest count) SaneTurn) (client, 0)
        [.process (some (.data "status\nhe".toList)) (fun _ => []) (.sent 5)] (after "status\nhe")) ∧
    (Checked digest count (after "status\nhe").1 (fun _ => []) 1 "lp\n".toList ↔
      Sane (after "status\nhe").1 "lp\n".toList) := by
  have h : Step digest count (client, 0) (.process (some (.data "status\nhe".toList)) (fun _ => []) (.sent 5))
      (after "status\nhe") := Prod.ext rfl rfl
  exact checked_iff (.step h .refl) ..

-- What stands behind a NUL is appended with it, and the lines of the client are not found any more.
theorem not_always_checked : ¬∀ conn nonces d bytes, Checked digest count conn nonces d bytes := by
  intro h
  have := h client (fun _ => []) 0 ("help".toList ++ nul :: "\x01\n".toList) (by decide)
  revert this
  decide

end Example

end F2b.Intake
