import F2b.Backends.Theorems.Redis
import F2b.Jail.Network
import F2b.Jail.Theorems.Attribution
import F2b.Jail.Theorems.Balance

-- Jails that publish their bans and take over those of others: where a ban comes from that has gone through the
-- network, and how often an address is published.

namespace F2b

open Redis (Publisher Subscriber Message Push)
open Transition (Steps Brought)

variable {β : Type} [Backend β] {A A' : CString → Prop}

namespace Traced

theorem messages_call (b : Traced (Publisher ⊕ β)) (ip : CString) :
    (Backend.ping b).2.messages = b.messages ∧ (Backend.check ip b).2.messages = b.messages ∧
    (Backend.unban ip b).2.messages = b.messages ∧ (Backend.stop b).2.messages = b.messages ∧
    ((Backend.ban ip b).2.messages = b.messages ∨
      ∃ channel, (Backend.ban ip b).2.messages = b.messages ++ [⟨channel, ip⟩]) := by
  obtain ⟨inner | inner, calls⟩ := b
  case inr =>
    refine ⟨rfl, ?_, rfl, rfl, .inl rfl⟩
    simp only [Backend.check]
    split <;> rfl
  case inl =>
    refine ⟨inner.ping_quiet.published, rfl, rfl, inner.stop_quiet.published, ?_⟩
    exact (inner.ban_eq ip).2.imp id fun h => ⟨inner.hash, h⟩

-- All that the backend has been asked for is of `A`, and all that it has published.
structure Sent (A : CString → Prop) (b : Traced (Publisher ⊕ β)) : Prop where
  within   : b.Within A
  messages : ∀ m ∈ b.messages, A m.text

theorem ledger_sent : Backend.Ledger (Sent (β := β)) where
  mono  := fun h hs => ⟨Traced.ledger.mono h hs.within, fun m hm => h _ (hs.messages m hm)⟩
  keeps := fun A => by
    have hk := Traced.keeps_within (β := Publisher ⊕ β) (A := A)
    refine ⟨fun b h => ?_, fun ip b ha h => ?_, fun ip b ha h => ?_, fun ip b ha h => ?_, fun b h => ?_⟩
    case refine_1 => exact ⟨hk.ping b h.within, (messages_call b []).1 ▸ h.messages⟩
    case refine_2 => exact ⟨hk.check ip b ha h.within, (messages_call b ip).2.1 ▸ h.messages⟩
    case refine_4 => exact ⟨hk.unban ip b ha h.within, (messages_call b ip).2.2.1 ▸ h.messages⟩
    case refine_5 => exact ⟨hk.stop b h.within, (messages_call b []).2.2.2.1 ▸ h.messages⟩
    case refine_3 =>
      refine ⟨hk.ban ip b ha h.within, ?_⟩
      obtain he | ⟨channel, he⟩ := (messages_call b ip).2.2.2.2 <;> rw [he]
      case inl => exact h.messages
      case inr =>
        intro m hm
        obtain hm | hm := List.mem_append.mp hm
        case inl => exact h.messages m hm
        case inr => exact List.mem_singleton.mp hm ▸ ha

-- An address is published no more often than its ban has been asked for.
def Sparing (t : CString) (b : Traced (Publisher ⊕ β)) : Prop :=
  b.messages.countP (·.text = t) ≤ b.calls.countP (· = (.ban, t))

theorem keeps_sparing (t : CString) (A : CString → Prop) : Backend.Keeps A (Sparing (β := β) t) := by
  refine ⟨fun b h => ?_, fun ip b _ h => ?_, fun ip b _ h => ?_, fun ip b _ h => ?_, fun b h => ?_⟩
  all_goals simp only [Sparing] at h ⊢
  case refine_1 => rw [(messages_call b []).1]; exact h
  case refine_5 => rw [(messages_call b []).2.2.2.1]; exact h
  case refine_2 =>
    rw [(messages_call b ip).2.1]
    refine Nat.le_trans h ?_
    simp only [Backend.check, pass]
    split
    · simp [note, List.countP_append]
    · exact Nat.le_refl _
  case refine_4 =>
    rw [(messages_call b ip).2.2.1]
    exact Nat.le_trans h (by simp [Backend.unban, pass, note, List.countP_append])
  case refine_3 =>
    have hb : (Backend.ban ip b).2.calls = b.calls ++ [(.ban, ip)] := rfl
    obtain he | ⟨channel, he⟩ := (messages_call b ip).2.2.2.2 <;> rw [he, hb, List.countP_append]
    case inl => exact Nat.le_trans h (Nat.le_add_right ..)
    case inr =>
      have hc : List.countP (fun m => decide (m.text = t)) [(⟨channel, ip⟩ : Message)] =
          List.countP (fun call => decide (call = (Kind.ban, t))) [(Kind.ban, ip)] := by
        simp [List.countP_singleton]
      rw [List.countP_append, hc]
      exact Nat.add_le_add_right h _

omit [Backend β] in
theorem Sparing.le_blocks {t : CString} {b : Traced (Publisher ⊕ β)} (h : b.Sparing t) :
    b.messages.countP (·.text = t) ≤ b.blocks t := by
  refine Nat.le_trans h (List.countP_mono_left fun call _ hc => ?_)
  simp only [decide_eq_true_eq] at hc ⊢
  subst hc
  exact ⟨nofun, rfl⟩

end Traced

namespace Redis.Subscriber

variable {s s' : Subscriber} {x : Bool × Subscriber} {f : Subscriber → Bool × Subscriber}

-- All that waits to be read are messages on the channel of the source, with texts of `A`.
structure Holds (A : CString → Prop) (s : Subscriber) : Prop where
  messages : ∀ push ∈ s.inbox, ∃ text, push = .array "message".toList s.hash text ∧ A text

theorem Holds.mono (h : ∀ t, A t → A' t) (hs : s.Holds A) : s.Holds A' :=
  ⟨fun push hp => have ⟨text, he, ha⟩ := hs.messages push hp; ⟨text, he, h text ha⟩⟩

theorem holds_nil (h : s.inbox = []) : s.Holds A :=
  ⟨by simp [h]⟩

-- The connection is the one that was there, or a new one.
structure Renewed (s s' : Subscriber) : Prop where
  hash : s'.hash = s.hash
  conn : (s'.conn = s.conn ∧ s'.live = s.live ∧ s'.inbox = s.inbox) ∨ (s'.conn = some false ∧ s'.inbox = [])

theorem Renewed.refl (s : Subscriber) : Renewed s s :=
  ⟨rfl, .inl ⟨rfl, rfl, rfl⟩⟩

theorem Renewed.andThen (h : Renewed s x.2) (hf : ∀ s, Renewed s (f s).2) : Renewed s (andThen x f).2 := by
  simp only [Redis.andThen]
  split
  case isFalse => exact h
  case isTrue  =>
    obtain ⟨hh, ⟨hc, hl, hi⟩ | hc⟩ := hf x.2
    case inl => exact ⟨hh.trans h.hash, by rw [hc, hl, hi]; exact h.conn⟩
    case inr => exact ⟨hh.trans h.hash, .inr hc⟩

theorem connect_renewed (s : Subscriber) : Renewed s s.connect.2 := by
  have hc (s : Subscriber) : Renewed s s.call.2 := ⟨rfl, .inl ⟨rfl, rfl, rfl⟩⟩
  have ha (s : Subscriber) : Renewed s s.auth.2 := by
    simp only [auth]
    split
    · exact .refl s
    · exact hc s
  have hd (s : Subscriber) : Renewed s s.select.2 := by
    simp only [select]
    split
    · exact .refl s
    · exact hc s
  simp only [connect]
  split
  · exact .refl s
  · exact (hc s).andThen fun s => (ha s).andThen fun s => (hd s).andThen fun s => (hc s).andThen fun s =>
      (hc s).andThen fun s => ⟨rfl, .inr ⟨rfl, rfl⟩⟩

theorem Renewed.holds (h : Renewed s s') (hs : s.Holds A) : s'.Holds A := by
  obtain ⟨hh, ⟨_, _, hi⟩ | ⟨_, hi⟩⟩ := h
  case inl => exact ⟨hh.symm ▸ hi.symm ▸ hs.messages⟩
  case inr => exact holds_nil hi

theorem Holds.next (bufsize : Nat) (hs : s.Holds A) :
    (s.next bufsize).2.Holds A ∧
    ((s.next bufsize).1.1 ≠ 0 → ∃ text, (s.next bufsize).1.2 = text.strlcpy bufsize ∧ A text) := by
  have hc := (connect_renewed s).holds hs
  simp only [Subscriber.next]
  generalize s.connect = x at hc
  obtain ⟨ok, s⟩ := x
  cases ok
  case false => exact ⟨hc, fun h => absurd rfl h⟩
  case true  =>
    simp only [read]
    cases hi : s.inbox
    case nil              =>
      refine ⟨?_, fun h => absurd rfl h⟩
      dsimp only
      split
      · exact hc
      · exact ⟨hi ▸ hc.messages⟩
    case cons push inbox  =>
      obtain ⟨text, rfl, ha⟩ := hc.messages push (hi ▸ List.mem_cons_self)
      have hi : ∀ push ∈ inbox, ∃ text, push = .array "message".toList s.hash text ∧ A text :=
        fun push hp => hc.messages push (hi ▸ List.mem_cons_of_mem _ hp)
      simp only [true_or, if_true]
      exact ⟨⟨hi⟩, fun _ => ⟨text, rfl, ha⟩⟩

theorem Holds.deliver {messages : List Message} (hm : ∀ m ∈ messages, A m.text) (hs : s.Holds A) :
    (s.deliver messages).Holds A := by
  simp only [Subscriber.deliver]
  split
  case isFalse => exact hs
  case isTrue  =>
    refine ⟨fun push hp => ?_⟩
    obtain hp | hp := List.mem_append.mp hp
    case inl => exact hs.messages push hp
    case inr =>
      obtain ⟨m, hm', rfl⟩ := List.mem_map.mp hp
      have ⟨hm', hc⟩ := List.mem_filter.mp hm'
      exact ⟨m.text, by rw [of_decide_eq_true hc], hm m hm'⟩

theorem Holds.cut (n : Nat) (hs : s.Holds A) : (s.cut n).Holds A :=
  ⟨fun push hp => hs.messages push (List.mem_of_mem_take hp)⟩

end Redis.Subscriber

namespace Node

variable {env : Env} {n n' : Node β} {a : Act}

-- The addresses that an act brings in from outside the network: those of the jail, and what a filter makes of a
-- message.
def Enters (env : Env) (n : Node β) (a : Act) (t : CString) : Prop :=
  match a with
  | .operate op => n.system.Enters env op t
  | .next       => n.system.jail.settings.flags.hasFilter ∧ Ipaddr.Valid env.inet t ∧
    ∃ filter now source hit, n.phase = .reading filter now ∧ n.source = some source ∧
      n.system.jail.capture filter (source.next LOGLINE_MAX).1.2 = .ok (some hit) ∧ hit.text = t
  | _           => False

-- A jail in a pass is up, and its source holds what is of `A`, as does the jail.
structure Accounted (env : Env) (A : CString → Prop) (n : Node β) : Prop where
  system : n.system.Accounted env Traced.Sent A
  source : ∀ s ∈ n.source, s.Holds A
  up     : n.phase ≠ .rest → n.system.up

theorem Accounted.mono (h : ∀ t, A t → A' t) (hn : n.Accounted env A) : n.Accounted env A' :=
  ⟨hn.system.mono Traced.ledger_sent h, fun s hs => (hn.source s hs).mono h, hn.up⟩

omit [Backend β] in
theorem Accounted.hear {messages : List Message} (hm : ∀ m ∈ messages, A m.text) (hn : n.Accounted env A) :
    (n.hear messages).Accounted env A := by
  refine ⟨hn.system, fun s hs => ?_, hn.up⟩
  obtain ⟨source, hs', rfl⟩ := Option.map_eq_some_iff.mp hs
  exact (hn.source source hs').deliver hm

theorem operate_eq {op : Op} (h : n.operate env op = some n') :
    n'.phase = n.phase ∧
    ((∃ params now, op = .start params now ∧ n.load.system.Step env op n'.system ∧ n'.source = n.load.source) ∨
      (∃ stops, op = .stop stops ∧ n.system.Step env op n'.system ∧ n'.source = n.unload.source) ∨
      ((∀ params now, op ≠ .start params now) ∧ n.system.Step env op n'.system ∧ n'.source = n.source)) := by
  simp only [operate] at h
  split at h
  case h_1 => cases h
  all_goals
    obtain ⟨system, hs, rfl⟩ := Option.map_eq_some_iff.mp h
    refine ⟨rfl, ?_⟩
  case h_2 => exact .inl ⟨_, _, rfl, hs, rfl⟩
  case h_3 => exact .inr (.inl ⟨_, rfl, hs, rfl⟩)
  case h_4 hn _ _ => exact .inr (.inr ⟨fun params now he => hn params now he, hs, rfl⟩)

omit [Backend β] in
theorem Accounted.load (hn : n.Accounted env A) : n.load.Accounted env A := by
  have hq : Traced.Sent A { n.system.world.backend with
      inner := n.system.world.backend.inner.map Publisher.restart id } := by
    have hb := hn.system.confined.backend
    refine ⟨hb.within, fun m hm => hb.messages m ?_⟩
    simp only [Traced.messages] at hm ⊢
    cases hi : n.system.world.backend.inner
    case inl r => simpa [hi, r.restart_quiet.published] using hm
    case inr   => simp [hi] at hm
  refine ⟨hn.system.backend hq, fun s hs => ?_, hn.up⟩
  obtain ⟨s, _, rfl⟩ := Option.map_eq_some_iff.mp hs
  exact (Redis.Subscriber.connect_renewed _).holds (Redis.Subscriber.holds_nil rfl)

theorem Accounted.operate {op : Op} (h : n.operate env op = some n') (hn : n.Accounted env A) (hr : n.phase = .rest) :
    n'.Accounted env (fun t => A t ∨ n.Enters env (.operate op) t) := by
  have ⟨hp, hc⟩ := operate_eq h
  have hu : n'.phase ≠ .rest → n'.system.up := fun h => absurd (hp.trans hr) h
  obtain ⟨_, _, rfl, hs, he⟩ | ⟨_, rfl, hs, he⟩ | ⟨_, hs, he⟩ := hc
  case inl =>
    refine ⟨hn.load.system.step Traced.ledger_sent hs, fun s hm => ?_, hu⟩
    exact (hn.load.source s (he ▸ hm)).mono fun _ => .inl
  case inr.inl =>
    refine ⟨hn.system.step Traced.ledger_sent hs, fun s hm => ?_, hu⟩
    obtain ⟨s, _, rfl⟩ := Option.map_eq_some_iff.mp (he ▸ hm : s ∈ n.unload.source)
    exact Redis.Subscriber.holds_nil rfl
  case inr.inr =>
    exact ⟨hn.system.step Traced.ledger_sent hs, fun s hm => (hn.source s (he ▸ hm)).mono fun _ => .inl, hu⟩

theorem act_eq (h : n.act env a = some n') :
    (∃ op, a = .operate op ∧ n.phase = .rest ∧ n.operate env op = some n') ∨
    (∃ filter now, a = .begin filter now ∧ n.phase = .rest ∧ n.system.up ∧ n' = n.begin filter now) ∨
    (∃ filter now source, a = .next ∧ n.phase = .reading filter now ∧ n.source = some source ∧
      n.next env filter now source = some n') ∨
    (∃ now fate, a = .finish fate ∧ n.phase = .finishing now ∧ n' = n.finish now fate) ∨
    (∃ k source, a = .cut k ∧ n.source = some source ∧ n' = { n with source := some (source.cut k) }) := by
  simp only [act] at h
  split at h
  case h_1 hp    => exact .inl ⟨_, rfl, hp, h⟩
  case h_2 hp _  =>
    split at h
    case isTrue hu => exact .inr (.inl ⟨_, _, rfl, hp, hu, (Option.some.inj h).symm⟩)
    case isFalse   => cases h
  case h_3 hp hs => exact .inr (.inr (.inl ⟨_, _, _, rfl, hp, hs, h⟩))
  case h_4 hp    => exact .inr (.inr (.inr (.inl ⟨_, _, rfl, hp, (Option.some.inj h).symm⟩)))
  case h_5 hs    => exact .inr (.inr (.inr (.inr ⟨_, _, rfl, hs, (Option.some.inj h).symm⟩)))
  case h_6       => cases h

theorem next_eq {filter : Filter} {now : Int} {source : Subscriber} (h : n.next env filter now source = some n') :
    n' = { n with source := some (source.next LOGLINE_MAX).2, phase := .finishing now } ∨
    ((source.next LOGLINE_MAX).1.1 ≠ 0 ∧ ∃ jail world, n.system.jail.consume env.inet filter now
      (source.next LOGLINE_MAX).1.1 (source.next LOGLINE_MAX).1.2 n.system.world = .ok (jail, world) ∧
      n' = { n with system := { n.system with jail, world }, source := some (source.next LOGLINE_MAX).2 }) := by
  simp only [Node.next] at h
  split at h
  case isTrue  => exact .inl (Option.some.inj h).symm
  case isFalse hz =>
    split at h
    case h_1 jail world hc => exact .inr ⟨hz, jail, world, hc, (Option.some.inj h).symm⟩
    case h_2               => cases h

theorem taken_of_valid {inet : Inet} {text : CString}
    (hv : Ipaddr.Valid inet ((text.strlcpy LOGLINE_MAX).take IPADDR_MAX)) :
    (text.strlcpy LOGLINE_MAX).take IPADDR_MAX = text := by
  have hl := hv.length_lt
  simp only [CString.strlcpy, List.length_take, LOGLINE_MAX, IPADDR_MAX] at hl
  rw [CString.strlcpy, List.take_take]
  exact List.take_of_length_le (by simp only [LOGLINE_MAX, IPADDR_MAX]; omega)

theorem Accounted.next {filter : Filter} {now : Int} {source : Subscriber} (hp : n.phase = .reading filter now)
    (hs : n.source = some source) (h : n.next env filter now source = some n') (hn : n.Accounted env A) :
    n'.Accounted env (fun t => A t ∨ n.Enters env .next t) := by
  have hm : n.Accounted env fun t => A t ∨ n.Enters env .next t := hn.mono fun _ => .inl
  have hu : n.system.up := hn.up (by simp [hp])
  have ⟨hq, ht⟩ := (hm.source source hs).next LOGLINE_MAX
  have hq : ∀ s ∈ some (source.next LOGLINE_MAX).2, s.Holds fun t => A t ∨ n.Enters env .next t :=
    fun s hs => Option.some.inj hs ▸ hq
  obtain rfl | ⟨hz, jail, world, hc, rfl⟩ := next_eq h
  case inl => exact ⟨hm.system, hq, fun _ => hu⟩
  case inr =>
    refine ⟨hm.system.consume Traced.ledger_sent hu (fun hit hcap hv => ?_) hc, hq, fun _ => hu⟩
    by_cases hf : n.system.jail.settings.flags.hasFilter
    case pos => exact .inr ⟨hf, hv, filter, now, source, hit, hp, hs, hcap, rfl⟩
    case neg =>
      obtain ⟨text, hl, ha⟩ := ht hz
      rw [Jail.capture, if_neg hf, Except.ok.injEq, Option.some.injEq, hl] at hcap
      subst hcap
      exact (taken_of_valid hv).symm ▸ ha

omit [Backend β] in
theorem Accounted.cut {source : Subscriber} (k : Nat) (hs : n.source = some source) (hn : n.Accounted env A) :
    Accounted env A { n with source := some (source.cut k) } :=
  ⟨hn.system, fun _ h => Option.some.inj h ▸ (hn.source source hs).cut k, hn.up⟩

theorem Accounted.act (h : n.act env a = some n') (hn : n.Accounted env A) :
    n'.Accounted env (fun t => A t ∨ n.Enters env a t) := by
  have hm : n.Accounted env fun t => A t ∨ n.Enters env a t := hn.mono fun _ => .inl
  obtain ⟨op, rfl, hp, h⟩ | ⟨filter, now, rfl, hp, hu, rfl⟩ | ⟨filter, now, source, rfl, hp, hs, h⟩ |
    ⟨now, fate, rfl, hp, rfl⟩ | ⟨k, source, rfl, hs, rfl⟩ := act_eq h
  case inl                 => exact hn.operate h hp
  case inr.inl             =>
    have hb := (Traced.ledger_sent.keeps _).ping _ hm.system.confined.backend
    exact ⟨hm.system.backend hb, hm.source, fun _ => hu⟩
  case inr.inr.inl         => exact hn.next hp hs h
  case inr.inr.inr.inl     =>
    have hu := hn.up (by simp [hp])
    exact ⟨hm.system.finish now Traced.ledger_sent hu rfl, hm.source, fun h => absurd rfl h⟩
  case inr.inr.inr.inr     => exact hm.cut k hs

def bansBy (t : CString) : Act → Bool
  | .operate op => System.bansBy t op
  | _           => false

def releasesBy (t : CString) : Act → Bool
  | .operate op => System.releasesBy t op
  | _           => false

structure Balanced (env : Env) (t : CString) (bans unbans : Nat) (n : Node β) : Prop where
  system  : n.system.Balanced env t bans unbans
  sparing : n.system.Confined (fun _ => True) (Traced.Sparing t)
  up      : n.phase ≠ .rest → n.system.up

section Steps

variable {t : CString} {bans unbans : Nat}

omit [Backend β] in
theorem Balanced.load (hn : n.Balanced env t bans unbans) : n.load.Balanced env t bans unbans := by
  refine ⟨hn.system.backend rfl, ⟨hn.sparing.within, ?_⟩, hn.up⟩
  have hs := hn.sparing.backend
  simp only [Traced.Sparing, Traced.messages] at hs ⊢
  simp only [Node.load]
  cases hi : n.system.world.backend.inner
  case inl r => simpa [hi, r.restart_quiet.published] using hs
  case inr   => simp

theorem Balanced.step {op : Op} {system : System (Traced (Publisher ⊕ β))} (h : n.system.Step env op system)
    (hn : n.Balanced env t bans unbans) :
    system.Balanced env t (bans + if System.bansBy t op then 1 else 0)
      (unbans + if System.releasesBy t op then 1 else 0) ∧
    system.Confined (fun _ => True) (Traced.Sparing t) :=
  ⟨hn.system.step h, h.confined (Traced.keeps_sparing t _) hn.system.wellformed (fun _ _ _ => trivial) hn.sparing⟩

theorem Balanced.act (h : n.act env a = some n') (hn : n.Balanced env t bans unbans) :
    n'.Balanced env t (bans + if bansBy t a then 1 else 0) (unbans + if releasesBy t a then 1 else 0) := by
  obtain ⟨op, rfl, hp, h⟩ | ⟨filter, now, rfl, hp, hu, rfl⟩ | ⟨filter, now, source, rfl, hp, hs, h⟩ |
    ⟨now, fate, rfl, hp, rfl⟩ | ⟨k, source, rfl, hs, rfl⟩ := act_eq h
  case inl             =>
    have ⟨hp', hc⟩ := operate_eq h
    have hu : n'.phase ≠ .rest → n'.system.up := fun h => absurd (hp'.trans hp) h
    obtain ⟨_, _, rfl, hs, _⟩ | ⟨_, rfl, hs, _⟩ | ⟨_, hs, _⟩ := hc
    case inl     => exact ⟨(hn.load.step hs).1, (hn.load.step hs).2, hu⟩
    case inr.inl => exact ⟨(hn.step hs).1, (hn.step hs).2, hu⟩
    case inr.inr => exact ⟨(hn.step hs).1, (hn.step hs).2, hu⟩
  case inr.inl         =>
    exact ⟨hn.system.backend rfl, ⟨hn.sparing.within, (Traced.keeps_sparing t fun _ => True).ping _ hn.sparing.backend⟩,
      fun _ => hu⟩
  case inr.inr.inl     =>
    have hu : n.system.up := hn.up (by simp [hp])
    obtain rfl | ⟨_, jail, world, hc, rfl⟩ := next_eq h
    case inl => exact ⟨hn.system, hn.sparing, fun _ => hu⟩
    case inr =>
      have hk := Jail.Confined.consume (Traced.keeps_sparing t fun _ => True) (fun _ _ _ => trivial) hc
        ⟨fun _ _ => trivial, hn.sparing.backend⟩
      exact ⟨hn.system.consume hu hc, ⟨fun _ => hk.within, hk.backend⟩, fun _ => hu⟩
  case inr.inr.inr.inl =>
    have hu : n.system.up := hn.up (by simp [hp])
    have hk := Jail.Confined.tidy now (Traced.keeps_sparing t fun _ => True)
      (⟨fun _ _ => trivial, hn.sparing.backend⟩ : Jail.Confined _ _ n.system.jail n.system.world)
    have hv := Jail.save_view fate (Jail.tidy now n.system.jail n.system.world).1
      (Jail.tidy now n.system.jail n.system.world).2
    exact ⟨hn.system.finish now hu rfl, ⟨fun _ _ _ => trivial, (Prod.mk.inj hv).2 ▸ hk.backend⟩,
      fun h => absurd rfl h⟩
  case inr.inr.inr.inr => exact ⟨hn.system, hn.sparing, hn.up⟩

end Steps

-- A jail before its first start, whose backend has not been called yet.
structure New (n : Node β) (name : CString) : Prop where
  system : n.system = .new name n.system.world
  calls  : n.system.world.backend.calls = []
  sent   : n.sent = []
  source : ∀ s ∈ n.source, s.inbox = []
  phase  : n.phase = .rest

omit [Backend β] in
theorem New.accounted {name : CString} (hn : n.New name) :
    n.Accounted env (· ∈ System.kept env name n.system.world.disk) := by
  have hb : Traced.Sent (· ∈ System.kept env name n.system.world.disk) n.system.world.backend :=
    ⟨fun call hc => (by rw [hn.calls] at hc; cases hc), fun m hm => (by
      have hs : n.system.world.backend.messages = [] := hn.sent
      rw [hs] at hm
      cases hm)⟩
  have ha : n.system.Accounted env Traced.Sent (· ∈ System.kept env name n.system.world.disk) := by
    rw [hn.system]
    exact System.accounted_new hb
  exact ⟨ha, fun s hs => Redis.Subscriber.holds_nil (hn.source s hs), fun h => absurd hn.phase h⟩

omit [Backend β] in
theorem New.levelled {name : CString} (t : CString) (hn : n.New name) : n.Balanced env t 0 0 := by
  have hd : ¬n.system.up := by rw [hn.system]; exact nofun
  have hl : n.system.jail.ipaddrs = [] := by rw [hn.system]; rfl
  refine ⟨⟨fun hu => absurd hu hd, fun _ => hl, ?_, ?_⟩, ⟨fun _ _ _ => trivial, ?_⟩, fun h => absurd hn.phase h⟩
  · simp [hl, Traced.blocks, hn.calls]
  · simp [hl, Traced.blocks, Traced.releases, hn.calls, Jail.bannedAs]
  · have hs : n.system.world.backend.messages = [] := hn.sent
    simp [Traced.Sparing, hs]

end Node

section Runs

variable {κ : Type} [DecidableEq κ] {env : κ → Env} {net net' : κ → Node β} {names : κ → CString}
  {es : List (Broadcast.Event κ Act Message)} {k : κ}

-- Something that is in a state file at first, is brought into a jail from outside, or is published by hand.
def Sourced (env : κ → Env) (names : κ → CString) (net : κ → Node β) (es : List (Broadcast.Event κ Act Message))
    (t : CString) : Prop :=
  (∃ k, t ∈ System.kept (env k) (names k) (net k).system.world.disk) ∨
  Brought (network env).Step (Broadcast.Names (fun k => Node.Enters (env k)) fun m t => m.text = t) net es t

theorem accounted_of_steps (h₀ : ∀ k, (net k).New (names k)) (r : Steps (network env).Step net es net') (k : κ) :
    (net' k).Accounted (env k) (Sourced env names net es) := by
  refine Broadcast.confined (P := fun k A n => n.Accounted (env k) A) (Q := fun A m => A m.text)
    (N := fun k => Node.Enters (env k)) (M := fun m t => m.text = t)
    (A := fun t => ∃ k, t ∈ System.kept (env k) (names k) (net k).system.world.disk) Node.Accounted.mono ?_
    (fun hm hn => hn.hear hm) (fun _ => rfl) (fun {_ _ m} h => h m.text) r
    (fun k => (h₀ k).accounted.mono fun t ht => ⟨k, ht⟩) k
  intro k A n a n' sent h hn
  obtain ⟨n', ha, he⟩ := Option.map_eq_some_iff.mp h
  obtain ⟨rfl, rfl⟩ := Prod.mk.inj he
  have hn' := hn.act ha
  exact ⟨hn', fun m hm => hn'.system.confined.backend.messages m (List.mem_of_mem_drop hm)⟩

-- All that a jail of the network blocks, tracks or publishes, and all that is on its way to it, comes from a state
-- file that was there at first, from outside the network or from a message by hand.
theorem sourced (h₀ : ∀ k, (net k).New (names k)) (r : Steps (network env).Step net es net') (k : κ) (t : CString)
    (ht : (∃ call ∈ (net' k).system.world.backend.calls, call.2 = t) ∨
      ((net' k).system.up ∧ t ∈ Addrlist.texts (net' k).system.jail.ipaddrs) ∨
      (∃ m ∈ (net' k).sent, m.text = t) ∨
      (∃ s ∈ (net' k).source, ∃ kind channel, Push.array kind channel t ∈ s.inbox)) :
    Sourced env names net es t := by
  have hn := accounted_of_steps h₀ r k
  obtain ⟨call, hc, rfl⟩ | ⟨hu, ht⟩ | ⟨m, hm, rfl⟩ | ⟨s, hs, kind, channel, hp⟩ := ht
  case inl             => exact hn.system.confined.backend.within call hc
  case inr.inl         => exact hn.system.confined.within hu t ht
  case inr.inr.inl     => exact hn.system.confined.backend.messages m hm
  case inr.inr.inr     =>
    obtain ⟨text, he, ha⟩ := (hn.source s hs).messages _ hp
    obtain ⟨_, _, rfl⟩ := Push.array.inj he
    exact ha

section Example

inductive Host
  | sensor
  | actor
  deriving DecidableEq

def hostNode (backend : Publisher ⊕ Blocklist) (source : Option Subscriber) : Node Blocklist where
  system := .new "ssh".toList ⟨⟨backend, []⟩, [], fun _ => none⟩
  source := source
  phase  := .rest

theorem new_hostNode (id : CString) (source : Option CString) (backend : Option Blocklist) :
    (hostNode (backend.elim (.inl (.create id [] [] [])) .inr) (source.map (.create · [] []))).New "ssh".toList := by
  refine ⟨rfl, rfl, ?_, fun s hs => ?_, rfl⟩
  · cases backend <;> rfl
  · obtain ⟨_, _, rfl⟩ := Option.map_eq_some_iff.mp hs
    rfl

def actorParams : List Config.Param := [
  ⟨"enabled".toList, "yes".toList⟩, ⟨"source".toList, "redis:ssh".toList⟩, ⟨"banscore".toList, "10".toList⟩,
  ⟨"backend".toList, "exec-ipset:banned".toList⟩]

-- One publishes what it bans for its lines, and the other bans it as well.
def sharedNet : Host → Node Blocklist
  | .sensor => hostNode (.inl (.create "ssh".toList [] [] [])) none
  | .actor  => hostNode (.inr ⟨[], [], []⟩) (some (.create "ssh".toList [] []))

theorem new_sharedNet (k : Host) : (sharedNet k).New "ssh".toList := by
  cases k
  · exact new_hostNode "ssh".toList none none
  · exact new_hostNode "ssh".toList (some "ssh".toList) (some ⟨[], [], []⟩)

def sharedEvents : List (Broadcast.Event Host Act Message) := [
  .act .sensor (.operate (.start System.sshParams 1000)),
  .act .actor (.operate (.start actorParams 1000)),
  .act .sensor (.operate
    (.process (fun line => .ok (some ⟨1, line, 1000⟩)) 1010 [(1, "192.0.2.7".toList)] .complete)),
  .act .actor (.begin (fun _ => .ok none) 1011),
  .act .actor .next, .act .actor .next,
  .act .actor (.finish .complete)]

theorem sourced_shared :
    ∃ net, Transition.replay (network fun _ => System.quadEnv).step sharedNet sharedEvents = some net ∧
    (net .actor).system.world.backend.calls = [(.ban, "192.0.2.7".toList)] ∧
    Sourced (fun _ => System.quadEnv) (fun _ => "ssh".toList) sharedNet sharedEvents "192.0.2.7".toList := by
  let net := (Transition.replay (network fun _ => System.quadEnv).step sharedNet sharedEvents).get (by decide +kernel)
  have hr : Transition.replay (network fun _ => System.quadEnv).step sharedNet sharedEvents = some net :=
    (Option.some_get _).symm
  have hc : (net .actor).system.world.backend.calls = [(.ban, "192.0.2.7".toList)] := by decide +kernel
  exact ⟨net, hr, hc, sourced new_sharedNet (.of_replay hr) .actor _ (.inl ⟨_, hc ▸ List.mem_singleton_self _, rfl⟩)⟩

end Example

-- A jail publishes an address no more often than it has released it or has been told to ban it, but for the bans that
-- stand. So a message that goes round does not make another one.
theorem published_le (h₀ : ∀ k, (net k).New (names k)) (r : Steps (network env).Step net es net') (k : κ)
    (t : CString) :
    (net' k).sent.countP (·.text = t) ≤ Jail.bannedAs t (net' k).system.jail.ipaddrs +
      Traced.releases t (net' k).system.world.backend + (Broadcast.acts k es).countP (Node.bansBy t) := by
  have hb : (net' k).Balanced (env k) t ((Broadcast.acts k es).countP (Node.bansBy t))
      ((Broadcast.acts k es).countP (Node.releasesBy t)) := by
    refine Broadcast.each_of_steps (P := fun acts n => n.Balanced (env k) t (acts.countP (Node.bansBy t))
      (acts.countP (Node.releasesBy t))) k ?_ (fun _ _ _ hn => ⟨hn.system, hn.sparing, hn.up⟩) r ((h₀ k).levelled t)
    intro acts n a n' sent h hn
    obtain ⟨n', ha, he⟩ := Option.map_eq_some_iff.mp h
    obtain ⟨rfl, rfl⟩ := Prod.mk.inj he
    simpa only [List.countP_append, List.countP_singleton] using hn.act ha
  exact Nat.le_trans hb.sparing.backend.le_blocks hb.system.balanced.le

section Example

-- Both hosts take over what they hear and publish it.
def ringNet : Host → Node Blocklist :=
  fun _ => hostNode (.inl (.create "ssh".toList [] [] [])) (some (.create "ssh".toList [] []))

def ringEvents : List (Broadcast.Event Host Act Message) := [
  .act .sensor (.operate (.start actorParams 1000)),
  .act .actor (.operate (.start actorParams 1000)),
  .say ⟨"f2b-banned-ssh".toList, "192.0.2.7".toList⟩,
  .act .sensor (.begin (fun _ => .ok none) 1010), .act .sensor .next,
  .act .actor (.begin (fun _ => .ok none) 1011), .act .actor .next, .act .actor .next, .act .actor .next,
  .act .sensor .next, .act .sensor .next, .act .sensor .next]

theorem published_le_ring :
    ∃ net, Transition.replay (network fun _ => System.quadEnv).step ringNet ringEvents = some net ∧
    (net .sensor).sent.countP (·.text = "192.0.2.7".toList) = 1 ∧
    (net .sensor).sent.countP (·.text = "192.0.2.7".toList) ≤
      Jail.bannedAs "192.0.2.7".toList (net .sensor).system.jail.ipaddrs +
        Traced.releases "192.0.2.7".toList (net .sensor).system.world.backend +
        (Broadcast.acts .sensor ringEvents).countP (Node.bansBy "192.0.2.7".toList) := by
  let net := (Transition.replay (network fun _ => System.quadEnv).step ringNet ringEvents).get (by decide +kernel)
  have hr : Transition.replay (network fun _ => System.quadEnv).step ringNet ringEvents = some net :=
    (Option.some_get _).symm
  refine ⟨net, hr, by decide +kernel, ?_⟩
  exact published_le (fun _ => new_hostNode "ssh".toList (some "ssh".toList) none) (.of_replay hr) .sensor _

end Example
end Runs
end F2b
