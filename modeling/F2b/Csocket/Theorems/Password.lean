import F2b.Csocket.Poll
import F2b.Csocket.Theorems.Auth
import F2b.Csocket.Theorems.Grammar
import F2b.Csocket.Theorems.Intake
import F2b.Objects.Theorems.Values

-- What becomes of a password on its way from the config file to the comparison with what a client sends.

namespace F2b.Password

open CString Words
open Config (IsValue isValue_of_load)

section Definitions

-- The last option 'password' of the section counts.
def passwordOf (sec : Config.Section) : Option CString :=
  (Config.lastDef "password".toList sec.param).map (·.value)

-- MD5 digests are 32 hexadecimal digits.
def IsHexdigest (md5 : CString → CString) : Prop :=
  ∀ s, (md5 s).length = 32 ∧ ∀ c ∈ md5 s, c ∈ "0123456789abcdef".toList

variable {δ : Type} (md5 : CString → CString) (cb : Cmd → δ → CString × δ)

-- The lines with which a client that knows the password asks to be let in.
def authLine (type value : CString) : CString :=
  "auth".toList ++ ' ' :: (type ++ ' ' :: value)

def plain (password : CString) : CString :=
  authLine "plain".toList password

def challenge (conn : Conn) (password : CString) : CString :=
  authLine "challenge".toList (md5 (conn.challenge ++ password))

-- The line is parsed as the command 'auth', and when the call in which it arrives is over, the connection is
-- open and the client has been let in.
def Accepted (conn : Conn) (d : δ) (nonces : Nat → CString) (sent : Conn.Sent) (line : CString) : Prop :=
  Conn.isAuth line ∧
  ∃ conn' d', conn.process md5 cb (some (.data (line ++ ['\n']))) nonces sent d = (false, conn', d') ∧
    conn'.flags.authOk

-- The password fits into the array for it, and it is one token of bytes that may be sent.
structure Typable (password : CString) : Prop where
  short : password.length < 32
  token : ∀ c ∈ password, Intake.printable c ∧ ¬isblank c

end Definitions

section Lines

open Cmd

variable {md5 : CString → CString} {conn : Conn} {type v w : CString}

def types : List CString :=
  ["plain".toList, "challenge".toList]

theorem of_isgraph {c : Char} (h : isgraph c) :
    isblank c = false ∧ Intake.printable c ∧ c ≠ nul ∧ c ≠ '\n' ∧ c ≠ '\r' := by
  refine ⟨?_, by simp [Intake.printable, h], ?_⟩
  case refine_1 =>
    refine Bool.eq_false_iff.mpr fun hb => ?_
    obtain rfl | rfl : c = ' ' ∨ c = '\t' := by simpa [isblank] using hb
    all_goals exact absurd h (by decide)
  case refine_2 =>
    refine ⟨?_, ?_, ?_⟩ <;> rintro rfl <;> exact absurd h (by decide)

theorem types_spec (ht : type ∈ types) : type ≠ [] ∧ type.length ≤ 9 ∧ ∀ c ∈ type, isgraph c := by
  have ha : ∀ t ∈ types, t ≠ [] ∧ t.length ≤ 9 ∧ t.all isgraph := by decide
  simpa using ha type ht

theorem tokens_authLine (ht : type ∈ types) (v : CString) :
    tokens ((authLine type v).dropWhile isspace) = "auth".toList :: type :: tokens v := by
  have ⟨hn, _, hw⟩ := types_spec ht
  have hd : (authLine type v).dropWhile isspace = authLine type v := List.dropWhile_cons_of_neg (by decide)
  rw [hd, authLine]
  show words isblank _ = _
  rw [words_append_word (w := "auth".toList) (by decide) (forall_of_all (by decide)) (by simp [Ends, isblank]),
    words_cons rfl,
    words_append_word hn (fun c hc => (of_isgraph (hw c hc)).1) (by simp [Ends, isblank]), words_cons rfl]
  rfl

theorem presents_iff (ht : type ∈ types) :
    conn.presents md5 (authLine type v) ↔
    ∃ w, tokens v = [w] ∧ conn.credentials md5 ⟨.auth, ["auth".toList, type, w]⟩ := by
  have hl := tokens_authLine ht v
  simp only [Conn.presents, Option.any_eq_true, Bool.and_eq_true, decide_eq_true_eq]
  constructor
  case mp  =>
    rintro ⟨⟨_, args⟩, hc, rfl, hcr⟩
    obtain ⟨⟨d, hd, hda, hf, _⟩, rfl, _⟩ := create_eq_some_iff.mp hc
    have hn : ∀ d ∈ commands, d.type = .auth → d.tokens.length = 3 := by decide
    have := hf.length_eq
    rw [hn d hd hda, hl] at this
    obtain ⟨w, hw⟩ := List.length_eq_one_iff.mp (show (tokens v).length = 1 by simpa using this.symm)
    rw [hl, hw] at hcr
    exact ⟨w, hw, hcr⟩
  case mpr =>
    rintro ⟨w, hw, hcr⟩
    rw [hw] at hl
    refine ⟨⟨.auth, _⟩, create_eq_some_iff.mpr ⟨?_, hl.symm, ?_⟩, rfl, hcr⟩
    case refine_1 =>
      rw [hl]
      refine matches_row 1 (by decide) ⟨.cons (.inr rfl) (.cons (.inl rfl) (.cons (.inl rfl) .nil)), fun _ => ?_⟩
      simpa [types] using ht
    case refine_2 =>
      rintro ⟨⟨_, _, h, _⟩, _⟩
      rw [hl] at h
      cases h

theorem presents_plain_iff :
    conn.presents md5 (plain v) ↔ tokens v = [conn.password] := by
  rw [plain, presents_iff (by simp [types])]
  simp [Conn.credentials]

theorem tokens_of_token (hn : w ≠ []) (hw : ∀ c ∈ w, isblank c = false) : tokens w = [w] := by
  have := words_append_word hn hw (show Ends isblank [] from nofun)
  rwa [List.append_nil, words_nil] at this

theorem eq_of_tokens (hv : IsValue v) (h : tokens v = [w]) : v = w ∧ ∀ c ∈ v, isblank c = false := by
  obtain ⟨t, rfl, ht⟩ := eq_append_of_words h hv.head
  have hm : w ∈ words isblank (w ++ t) := by
    have h : words isblank (w ++ t) = [w] := h
    simp [h]
  obtain rfl | ⟨t, a, rfl⟩ := List.eq_nil_or_concat' t
  case inl => exact ⟨List.append_nil w, by simpa using (mem_words hm).2.1⟩
  case inr =>
    have ha := hv.last a (by simp)
    simp [ht a (by simp)] at ha

end Lines

section Calls

variable {δ : Type} {md5 : CString → CString} {cb : Cmd → δ → CString × δ}
variable {conn : Conn} {line : CString} {nonces : Nat → CString} {sent : Conn.Sent} {d : δ}

-- A line that can be sent at once when nothing waits in the receive buffer.
structure Sendable (line : CString) : Prop where
  nonempty : line ≠ []
  fits     : line.length < RBUF_SIZE
  bytes    : ∀ c ∈ line, c ≠ nul ∧ c ≠ '\n' ∧ c ≠ '\r'

theorem Sendable.nul_not_mem (hs : Sendable line) : nul ∉ line ++ ['\n'] := by
  rw [List.mem_append]
  rintro (hm | hm)
  · exact (hs.bytes _ hm).1 rfl
  · exact absurd hm (by decide)

theorem extract_line {buf : Buf} (hs : Sendable line) (hb : buf.data = line ++ ['\n']) :
    buf.extract = some (line, { buf with data := [] }) := by
  have hc : (ofBuffer buf.data).strchr '\n' = some line.length := by
    rw [hb, ofBuffer_eq_self hs.nul_not_mem]
    exact strchr_eq_some_iff.mpr ⟨line, [], rfl, fun hm => (hs.bytes _ hm).2.1 rfl, rfl⟩
  rw [Buf.extract, hc]
  simp [Buf.splice, hb]

theorem stripCr_eq (hs : Sendable line) : Conn.stripCr line = line :=
  if_neg fun h => (hs.bytes _ (List.mem_of_getLast? h)).2.2 rfl

theorem messages_of_empty {turns : Nat} (h : conn.recv.data = []) :
    conn.messages md5 cb nonces turns d = (conn, d) := by
  cases turns
  case zero => rfl
  case succ => simp [Conn.messages, Buf.extract, ofBuffer, strchr, h]

theorem messages_line {turns : Nat} (hs : Sendable line) (hb : conn.recv.data = line ++ ['\n']) :
    conn.messages md5 cb nonces (turns + 1) d =
    ({ (conn.handle md5 cb line (nonces turns) d).1 with recv := { conn.recv with data := [] } },
      (conn.handle md5 cb line (nonces turns) d).2) := by
  rw [Conn.messages, extract_line hs hb]
  simp only [hs.nonempty, if_false, stripCr_eq hs]
  rw [Session.handle_recv conn, messages_of_empty rfl]

theorem receive_line (md5 : CString → CString) (cb : Cmd → δ → CString × δ) (nonces : Nat → CString) (d : δ)
    (hs : Sendable line) (hr : conn.recv = .alloc RBUF_SIZE) :
    conn.receive md5 cb nonces d (.data (line ++ ['\n'])) =
    if line.all Intake.printable then
      (false, { (conn.handle md5 cb line (nonces line.length) d).1 with recv := conn.recv },
        (conn.handle md5 cb line (nonces line.length) d).2)
    else (true, conn, d) := by
  have hc : Intake.chunk conn (line ++ ['\n']) = line ++ ['\n'] := by
    have := hs.fits
    refine List.take_of_length_le ?_
    simp only [hr, Buf.alloc, List.length_append, List.length_singleton, List.length_nil]
    omega
  have hp : (line ++ ['\n']).all Intake.printable = line.all Intake.printable := by
    have hn : Intake.printable '\n' = true := by decide
    simp [hn]
  rw [Intake.receive_eq, hc, if_neg (by simp), ofBuffer_eq_self hs.nul_not_mem, hp]
  split
  case isFalse => rfl
  case isTrue  =>
    have hb : conn.recv.append (line ++ ['\n']) = ⟨line ++ ['\n'], RBUF_SIZE⟩ := by
      have := hs.fits
      simp only [Buf.append, hr, Buf.alloc, List.nil_append, List.length_nil, Buf.mk.injEq, and_true]
      exact List.take_of_length_le (by simp; omega)
    have hl : (line ++ ['\n']).length = line.length + 1 := by simp
    rw [Intake.taken, hc, hb]
    rw [hl, messages_line hs rfl, Session.handle_recv conn, hr]
    rfl

theorem accepted_iff (md5 : CString → CString) (cb : Cmd → δ → CString × δ) (nonces : Nat → CString) (d : δ)
    (hs : Sendable line) (hr : conn.recv = .alloc RBUF_SIZE) (ha : ¬conn.flags.authOk) (hn : sent ≠ .error) :
    Accepted md5 cb conn d nonces sent line ↔ line.all Intake.printable ∧ conn.presents md5 line := by
  rw [Accepted, Conn.process, receive_line md5 cb nonces d hs hr]
  by_cases hp : line.all Intake.printable
  case neg =>
    simp only [hp, if_true, Bool.false_eq_true, if_false, false_and, iff_false]
    rintro ⟨_, _, _, h, _⟩
    cases h
  case pos =>
    obtain ⟨hh, _⟩ := Conn.handle_shut md5 cb line (nonces line.length) d ha
    generalize conn.handle md5 cb line (nonces line.length) d = c at hh
    obtain ⟨ht, _⟩ := Link.transmit_ok { c.1 with recv := conn.recv } hn
    have hk := (Conn.kept_transmit { c.1 with recv := conn.recv } sent).authOk
    simp only [hp, if_true, Bool.false_eq_true, if_false, ht, true_and, Prod.mk.injEq]
    constructor
    case mp  =>
      rintro ⟨_, _, _, ⟨rfl, rfl⟩, h⟩
      exact hh ▸ hk ▸ h
    case mpr =>
      intro h
      refine ⟨?_, _, _, ⟨rfl, rfl⟩, hk.trans (hh.trans h)⟩
      rw [Conn.presents, Option.any_eq_true] at h
      obtain ⟨cmd, hc, ht⟩ := h
      rw [Conn.isAuth, Option.any_eq_true]
      exact ⟨cmd, hc, (Bool.and_eq_true_iff.mp ht).1⟩

end Calls

section Run

variable {δ : Type} {md5 : CString → CString} {cb : Cmd → δ → CString × δ}
variable {conn conn' : Conn} {nonces : Nat → CString} {sent : Conn.Sent} {d : δ} {s s' : Conn × δ}

structure Fixed (conn conn' : Conn) : Prop where
  password : conn'.password = conn.password
  size     : conn'.recv.size = conn.recv.size

theorem Fixed.refl (conn : Conn) : Fixed conn conn :=
  ⟨rfl, rfl⟩

theorem Fixed.trans {conn'' : Conn} (h : Fixed conn conn') (h' : Fixed conn' conn'') : Fixed conn conn'' :=
  ⟨h'.password.trans h.password, h'.size.trans h.size⟩

theorem fixed_handle (md5 : CString → CString) (cb : Cmd → δ → CString × δ) (conn : Conn) (line nonce : CString)
    (d : δ) : Fixed conn (conn.handle md5 cb line nonce d).1 := by
  have hr : conn.handle md5 cb line nonce d =
      ({ (conn.handle md5 cb line nonce d).1 with recv := conn.recv }, (conn.handle md5 cb line nonce d).2) :=
    Session.handle_recv conn conn.recv line nonce d
  refine ⟨?_, congrArg (·.1.recv.size) hr⟩
  by_cases ha : conn.flags.authOk
  case pos => exact (Conn.handle_open md5 cb line nonce d ha).1.password
  case neg => exact (Conn.handle_shut md5 cb line nonce d ha).2.1

theorem fixed_messages (turns : Nat) (conn : Conn) (d : δ) :
    Fixed conn (conn.messages md5 cb nonces turns d).1 := by
  induction turns generalizing conn d
  case zero          => exact .refl conn
  case succ turns hi =>
    rw [Conn.messages]
    split
    case h_1 => exact .refl conn
    case h_2 line rest he =>
      have hf : Fixed conn { conn with recv := rest } := by
        rw [Buf.extract] at he
        split at he
        case h_1 => cases he
        case h_2 =>
          obtain ⟨_, rfl⟩ := Prod.mk.inj (Option.some.inj he)
          exact ⟨rfl, rfl⟩
      split
      case isTrue  => exact hf.trans (hi ..)
      case isFalse => exact hf.trans ((fixed_handle ..).trans (hi ..))

theorem fixed_receive (r : Conn.Recv) : Fixed conn (conn.receive md5 cb nonces d r).2.1 := by
  cases r
  case error => exact .refl conn
  case data bytes =>
    rw [Intake.receive_eq]
    split_ifs
    · exact .refl conn
    · have hf : Fixed conn { conn with recv := conn.recv.append (Intake.chunk conn bytes) } := ⟨rfl, rfl⟩
      exact hf.trans (fixed_messages ..)
    · exact .refl conn

theorem fixed_transmit (conn : Conn) (sent : Conn.Sent) : Fixed conn (conn.transmit sent).2 :=
  ⟨(Conn.kept_transmit conn sent).password, congrArg Buf.size (Intake.recv_transmit conn sent)⟩

theorem fixed_step {t : Intake.Turn} (h : Intake.Step md5 cb s t s') : Fixed s.1 s'.1 := by
  cases t
  case event evt =>
    obtain rfl := h
    refine ⟨(Conn.kept_event s.1 evt).password, ?_⟩
    rw [Conn.event]
    split <;> rfl
  case process incoming nonces sent =>
    obtain ⟨_, ht⟩ := Intake.transmit_of_process h
    rw [ht]
    refine .trans ?_ (fixed_transmit ..)
    cases incoming
    case none => exact .refl s.1
    case some => exact fixed_receive _

end Run

section Created

variable {sockCreate : CString → Option Conn.SockType} {random v : CString} {sec : Config.Section} {csock : Csock}

theorem password_foldl (sockCreate : CString → Option Conn.SockType) (ps : List Config.Param) (st : Csock × Bool) :
    (ps.foldl (Csock.createParam sockCreate) st).1.password =
    ((Config.lastDef "password".toList ps).map (·.value.strlcpy 32)).getD st.1.password := by
  induction ps using List.reverseRecOn
  case nil            => rfl
  case append_singleton ps p hi =>
    rw [List.foldl_concat, Config.lastDef_concat]
    generalize ps.foldl (Csock.createParam sockCreate) st = st' at hi
    have hn : "listen".toList ≠ "password".toList := by decide
    by_cases hl : p.name = "listen".toList
    case pos =>
      rw [if_neg fun h => hn (hl.symm.trans h), ← hi, Csock.createParam, if_pos hl]
      split
      · rfl
      · split <;> rfl
    case neg =>
      rw [Csock.createParam, if_neg hl]
      split
      · rfl
      · exact hi

theorem password_of_create (hc : Csock.create sockCreate random sec = (true, csock)) (hs : passwordOf sec = some v)
    (hv : v ≠ []) : csock.password = v.strlcpy 32 := by
  have hp := password_foldl sockCreate sec.param (Csock.empty, false)
  rw [passwordOf, Option.map_eq_some_iff] at hs
  obtain ⟨p, hs, rfl⟩ := hs
  rw [hs, Option.map_some, Option.getD_some] at hp
  have hn : p.value.strlcpy 32 ≠ [] := by
    obtain ⟨c, w, hw⟩ := List.exists_cons_of_ne_nil hv
    simp [hw, strlcpy]
  rw [Csock.create] at hc
  generalize sec.param.foldl (Csock.createParam sockCreate) (Csock.empty, false) = st at hp hc
  obtain ⟨c, needPass⟩ := st
  have hp : c.password = p.value.strlcpy 32 := hp
  dsimp only at hc
  by_cases h0 : c.listen = []
  case pos => rw [if_pos h0] at hc; cases hc
  case neg =>
    rw [if_neg h0, if_neg fun h => hn (hp.symm.trans h.2)] at hc
    exact (Prod.mk.inj hc).2 ▸ hp

end Created

section Lets

variable {δ : Type} {md5 : CString → CString} {cb : Cmd → δ → CString × δ}
variable {conn : Conn} {v : CString} {nonces : Nat → CString} {sent : Conn.Sent} {d : δ}

theorem sendable_authLine {type : CString} (ht : type ∈ types) (hl : v.length < CONFIG_VAL_MAX)
    (hv : ∀ c ∈ v, c ≠ nul ∧ c ≠ '\n' ∧ c ≠ '\r') : Sendable (authLine type v) := by
  have ⟨_, hlt, hg⟩ := types_spec ht
  refine ⟨by simp [authLine], ?_, fun c hc => ?_⟩
  case refine_1 =>
    simp only [authLine, List.length_append, List.length_cons, CONFIG_VAL_MAX, RBUF_SIZE] at *
    have : "auth".toList.length = 4 := rfl
    omega
  case refine_2 =>
    simp only [authLine, List.mem_append, List.mem_cons] at hc
    obtain hc | rfl | hc | rfl | hc := hc
    · exact (of_isgraph (forall_of_all (P := (isgraph ·)) (by decide) c hc)).2.2
    · decide
    · exact (of_isgraph (hg c hc)).2.2
    · decide
    · exact hv c hc

theorem printable_authLine {type : CString} (ht : type ∈ types) (v : CString) :
    (authLine type v).all Intake.printable = v.all Intake.printable := by
  have hg : type.all Intake.printable :=
    List.all_eq_true.mpr fun c hc => (of_isgraph ((types_spec ht).2.2 c hc)).2.1
  have ha : "auth".toList.all Intake.printable := by decide
  have hs : Intake.printable ' ' := by decide
  simp only [authLine, List.all_append, List.all_cons, hg, ha, hs, Bool.true_and]

theorem accepted_plain_iff (hv : IsValue v) (hp : conn.password = v.strlcpy 32) (hr : conn.recv = .alloc RBUF_SIZE)
    (ha : ¬conn.flags.authOk) (hn : sent ≠ .error) :
    Accepted md5 cb conn d nonces sent (plain v) ↔ Typable v := by
  have ht : "plain".toList ∈ types := by simp [types]
  have hs : Sendable (plain v) := sendable_authLine ht hv.short hv.line
  rw [accepted_iff md5 cb nonces d hs hr ha hn, presents_plain_iff, hp, plain, printable_authLine ht]
  constructor
  case mp  =>
    rintro ⟨hp, ht⟩
    have ⟨he, hb⟩ := eq_of_tokens hv ht
    have hl := length_strlcpy_lt v (show 0 < 32 by decide)
    rw [← he] at hl
    exact ⟨hl, fun c hc => ⟨List.all_eq_true.mp hp c hc, by simp [hb c hc]⟩⟩
  case mpr =>
    intro h
    rw [strlcpy_of_lt h.short]
    exact ⟨List.all_eq_true.mpr fun c hc => (h.token c hc).1,
      tokens_of_token hv.nonempty fun c hc => by simpa using (h.token c hc).2⟩

theorem accepted_challenge (hm : IsHexdigest md5) (hs : v.length < 32) (hp : conn.password = v.strlcpy 32)
    (hr : conn.recv = .alloc RBUF_SIZE) (ha : ¬conn.flags.authOk) (hn : sent ≠ .error) :
    Accepted md5 cb conn d nonces sent (challenge md5 conn v) := by
  have ht : "challenge".toList ∈ types := by simp [types]
  have ⟨hl, hx⟩ := hm (conn.challenge ++ v)
  have hg : ∀ c ∈ md5 (conn.challenge ++ v), isgraph c := fun c hc =>
    forall_of_all (P := (isgraph ·)) (by decide) c (hx c hc)
  have hw : md5 (conn.challenge ++ v) ≠ [] := List.ne_nil_of_length_pos (hl ▸ by decide)
  have hl : (md5 (conn.challenge ++ v)).length < CONFIG_VAL_MAX := hl ▸ by decide
  have hs' : Sendable (challenge md5 conn v) := sendable_authLine ht hl fun c hc => (of_isgraph (hg c hc)).2.2
  rw [accepted_iff md5 cb nonces d hs' hr ha hn, challenge, printable_authLine ht, presents_iff ht]
  refine ⟨List.all_eq_true.mpr fun c hc => (of_isgraph (hg c hc)).2.1, _,
    tokens_of_token hw fun c hc => (of_isgraph (hg c hc)).1, ?_⟩
  simp [Conn.credentials, hp, strlcpy_of_lt hs]

-- A client can be let in in both ways if and only if the password can be typed.
theorem accepted_iff_typable {fs : Config.Fs} {path nonce : CString} {sec : Config.Section}
    {sockCreate : CString → Option Conn.SockType} {random : CString} {csock : Csock} {sock : Nat} {d₀ : δ}
    {ts : List Intake.Turn} {s : Conn × δ} (hm : IsHexdigest md5)
    (hl : (Config.load fs .empty path).2.csocket = some sec) (hs : passwordOf sec = some v)
    (hc : Csock.create sockCreate random sec = (true, csock))
    (e : Transition.Steps (Intake.Step md5 cb) (.accept md5 .inet sock csock.password nonce, d₀) ts s)
    (ha : ¬s.1.flags.authOk) (hr : s.1.recv.data = []) (hn : sent ≠ .error) :
    (Accepted md5 cb s.1 s.2 nonces sent (plain v) ∧
      Accepted md5 cb s.1 s.2 nonces sent (challenge md5 s.1 v)) ↔ Typable v := by
  have hv : IsValue v := by
    obtain ⟨p, hp, rfl⟩ := Option.map_eq_some_iff.mp hs
    exact isValue_of_load hl (List.mem_of_mem_filter (List.mem_of_getLast? hp))
  have hf : Fixed (.accept md5 .inet sock csock.password nonce) s.1 :=
    e.invariant (P := fun s => Fixed _ s.1) (fun _ _ _ hs hf => hf.trans (fixed_step hs)) (.refl _)
  have hp : s.1.password = v.strlcpy 32 := hf.password.trans (password_of_create hc hs hv.nonempty)
  have hr : s.1.recv = .alloc RBUF_SIZE := by
    have hz : s.1.recv.size = RBUF_SIZE := hf.size
    rw [Buf.alloc, ← hr, ← hz]
  have hpl : Accepted md5 cb s.1 s.2 nonces sent (plain v) ↔ Typable v := accepted_plain_iff hv hp hr ha hn
  rw [hpl]
  exact and_iff_left_of_imp fun h => accepted_challenge hm h.short hp hr ha hn

end Lets

section Example

open Session (nonce count)

-- The digests of the texts that are hashed below, and that of the empty text.
def digest (s : CString) : CString :=
  if s = nonce then "b49286878edb13f89a08fcdfa7c76f65".toList
  else if s = "b49286878edb13f89a08fcdfa7c76f65secret".toList then "75ed1e0cd3cff770247264ba89c3ca72".toList
  else "d41d8cd98f00b204e9800998ecf8427e".toList

def conf (password : CString) : Config.Fs where
  open? _ := some ("[csocket]\nlisten = inet:127.0.0.1:3370\npassword = ".toList ++ password ++ "\n".toList)
  isDir _ := false
  glob _  := none

def sockCreate (spec : CString) : Option Conn.SockType :=
  if spec.strncmpEq "inet:".toList 5 then some .inet else none

def loaded (password : CString) : Config.Section where
  name  := []
  type  := .csocket
  param := [⟨"listen".toList, "inet:127.0.0.1:3370".toList⟩, ⟨"password".toList, password⟩]

def csocket (password : CString) : Csock :=
  { Csock.empty with listen := [.inet], password := password.strlcpy 32 }

def secret : CString :=
  "secret".toList

-- The array has 32 bytes, of which the last one is for the terminator.
def long : CString :=
  "0123456789abcdef0123456789abcdef".toList

def client (password : CString) : Conn :=
  .accept digest .inet 7 (csocket password).password nonce

theorem isHexdigest_digest : IsHexdigest digest := by
  intro s
  rw [digest]
  split_ifs <;> exact ⟨rfl, forall_of_all (by decide)⟩

theorem accepted_iff_typable_secret :
    (Accepted digest count (client secret) 0 (fun _ => []) .again (plain secret) ∧
      Accepted digest count (client secret) 0 (fun _ => []) .again (challenge digest (client secret) secret)) ↔
    Typable secret := by
  have hl : (Config.load (conf secret) .empty "f2b.conf".toList).2.csocket = some (loaded secret) := by decide
  have hc : Csock.create sockCreate [] (loaded secret) = (true, csocket secret) := rfl
  exact accepted_iff_typable isHexdigest_digest hl (by decide) hc .refl (by decide) rfl (by decide)

theorem not_always_accepted :
    ¬∀ fs path sec v csock, (Config.load fs .empty path).2.csocket = some sec → passwordOf sec = some v →
      Csock.create sockCreate [] sec = (true, csock) →
      Accepted digest count (.accept digest .inet 7 csock.password nonce) 0 (fun _ => []) .again (plain v) := by
  intro h
  have hl : (Config.load (conf long) .empty "f2b.conf".toList).2.csocket = some (loaded long) := by decide
  have hc : Csock.create sockCreate [] (loaded long) = (true, csocket long) := rfl
  have hv : IsValue long := isValue_of_load hl (p := ⟨"password".toList, long⟩) (by simp [loaded])
  have ha := h _ _ _ long _ hl (by decide) hc
  have ht := (accepted_plain_iff hv rfl rfl (by decide) (by decide)).mp ha
  exact absurd ht.short (by decide)

end Example

end F2b.Password
