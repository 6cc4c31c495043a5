import F2b.Jail.Theorems.Lines
import F2b.Jail.Theorems.Network
import F2b.Jail.Theorems.Score
import Mathlib.Algebra.Order.BigOperators.Group.List
import Mathlib.Algebra.Order.Group.Nat

-- A jail without a filter takes over all that has been sent to it, and its loop comes to an end though its own bans
-- may come back to it.

namespace F2b

open Redis (Publisher Subscriber Message Push)
open Transition (Steps Brought)

variable {β : Type} [Backend β]

namespace Jail

variable {inet : Inet} {l : List Ipaddr} {p : Place Ipaddr} {a : Ipaddr} {t u : CString}

-- The record that the address is found by bans it.
def standing (t : CString) (l : List Ipaddr) : Bool :=
  (Addrlist.lookup l t).any (·.here.banned)

theorem standing_set (h : Addrlist.lookup l t = some p) (ha : a.text = p.here.text) :
    standing t (p.set a).list = a.banned := by
  have hq : CString.strncmpEq a.text t IPADDR_MAX := ha ▸ Place.find?_here h
  have hl : Addrlist.lookup (p.set a).list t = some (p.set a) := Place.find?_set h hq
  rw [standing, hl]
  rfl

theorem standing_set_of_ne (hl : p.here.text.length < IPADDR_MAX) (ha : a.text = p.here.text)
    (ht : p.here.text ≠ t) : standing t (p.set a).list = standing t p.list := by
  let q : Ipaddr → Bool := fun a => CString.strncmpEq a.text t IPADDR_MAX
  have hq : ¬q p.here := fun h => ht (CString.eq_of_strncmpEq h hl)
  have hq' : ¬q a := by
    simp only [q, ha]
    exact hq
  have hs : (Addrlist.lookup (p.set a).list t).map (·.here) = (Addrlist.lookup p.list t).map (·.here) :=
    Place.find?_set_of_not hq hq'
  have he (l : List Ipaddr) : standing t l = ((Addrlist.lookup l t).map (·.here)).any (·.banned) := by
    rw [standing, Option.any_map]
  rw [he, he, hs]

theorem not_standing_of_not_mem (hl : ∀ a ∈ l, a.text.length < IPADDR_MAX) (ht : t ∉ Addrlist.texts l) :
    standing t l = false := by
  cases hp : Addrlist.lookup l t
  case none   => simp [standing, hp]
  case some p =>
    have hm : p.here ∈ l := Addrlist.lookup_list hp ▸ p.here_mem
    exact absurd (Addrlist.mem_texts_iff.mpr ⟨_, hm, Addrlist.lookup_text hp hl⟩) ht

-- A place for an address in a list: that of its record, or of a new one at the head.
structure At (inet : Inet) (t : CString) (l : List Ipaddr) (p : Place Ipaddr) : Prop where
  text   : p.here.text = t
  lookup : Addrlist.lookup p.list t = some p
  mem    : ∀ u, u ∈ Addrlist.texts p.list ↔ u ∈ Addrlist.texts l ∨ u = t
  here   : standing t l = p.here.banned
  others : ∀ u, u ≠ t → standing u p.list = standing u l
  fresh  : t ∉ Addrlist.texts l → Ipaddr.create inet t = some p.here

theorem at_of_track (hv : AllValid inet l) (hp : track inet l t = .ok p) : At inet t l p := by
  obtain hk | ⟨new, hn, hne, rfl⟩ := track_ok hp
  case inl =>
    have hl := Addrlist.lookup_list hk
    have ht := Addrlist.lookup_text hk hv.length_lt
    have hm : t ∈ Addrlist.texts l := Addrlist.mem_texts_iff.mpr ⟨_, hl ▸ p.here_mem, ht⟩
    refine ⟨ht, hl ▸ hk, fun u => ?_, by simp [standing, hk], fun u _ => by rw [hl], fun hn => absurd hm hn⟩
    rw [hl]
    exact ⟨.inl, fun h => h.elim id (· ▸ hm)⟩
  case inr =>
    have ht : new.text = t := Ipaddr.text_create hn
    have hl : t.length < IPADDR_MAX := (Ipaddr.valid_of_create hn).length_lt
    have hm : t ∉ Addrlist.texts l := fun hm =>
      have ⟨a, ha, he⟩ := Addrlist.mem_texts_iff.mp hm
      hne a ha he
    refine ⟨ht, ?_, fun u => ?_, ?_, fun u hu => ?_, fun _ => hn⟩
    · simp [Addrlist.lookup, Place.find?, Place.list, ht, CString.strncmpEq_self]
    · have he : Addrlist.texts (new :: l) = t :: Addrlist.texts l := congrArg (· :: Addrlist.texts l) ht
      exact (he ▸ List.mem_cons).trans or_comm
    · rw [not_standing_of_not_mem hv.length_lt hm, Ipaddr.banned_create hn]
    · have hq : ¬CString.strncmpEq new.text u IPADDR_MAX := fun h =>
        hu (ht ▸ (CString.eq_of_strncmpEq h (ht ▸ hl)).symm)
      simp [standing, Addrlist.lookup, Place.find?, Place.list, hq, Option.any_map]

theorem At.set (h : At inet t l p) (hl : t.length < IPADDR_MAX) (ha : a.text = p.here.text) :
    (∀ u, u ∈ Addrlist.texts (p.set a).list ↔ u ∈ Addrlist.texts l ∨ u = t) ∧
    (∀ u, u ≠ t → standing u (p.set a).list = standing u l) ∧ standing t (p.set a).list = a.banned := by
  refine ⟨fun u => by rw [Addrlist.texts_set ha, h.mem], fun u hu => ?_, standing_set h.lookup ha⟩
  rw [standing_set_of_ne (h.text ▸ hl) ha (h.text ▸ hu.symm), h.others u hu]

variable {jail jail' : Jail} {w w' : World β} {filter : Filter} {now : Int} {stag : UInt32}

-- What comes of a line that is an address: its record is there, and if the host is banned now then the backend has
-- been asked for it. No other ban begins or ends. A host that is new is banned at once if one match is enough.
structure Heard (now : Int) (t : CString) (jail jail' : Jail) (w w' : World β) : Prop where
  settings : jail'.settings = jail.settings
  mem      : ∀ u, u ∈ Addrlist.texts jail'.ipaddrs ↔ u ∈ Addrlist.texts jail.ipaddrs ∨ u = t
  others   : ∀ u, u ≠ t → standing u jail'.ipaddrs = standing u jail.ipaddrs
  effect   : (standing t jail'.ipaddrs = standing t jail.ipaddrs ∧ w'.backend = w.backend) ∨
    (standing t jail.ipaddrs = false ∧ standing t jail'.ipaddrs = true ∧ w'.backend = Backend.block t w.backend)
  fresh    : t ∉ Addrlist.texts jail.ipaddrs → jail.settings.banscore ≤ MATCH_DEFSCORE → 0 < jail.settings.findtime →
    jail.settings.findtime ≤ now → standing t jail'.ipaddrs = true

theorem score_new {new : Ipaddr} (hn : Ipaddr.create inet t = some new) (s : Settings) (hp : 0 < s.findtime)
    (hf : s.findtime ≤ now) :
    score s (expireMatches s now (seen new ⟨now, stag, 0, MATCH_DEFSCORE⟩)) = MATCH_DEFSCORE := by
  obtain ⟨_, _, rfl⟩ := Ipaddr.create_eq hn
  have he : s.findtimeEff 0 = s.findtime := by
    simp [Settings.findtimeEff, truncate]
  have hk : now - s.findtime - 600 < now := by omega
  simp only [score, expireMatches, seen, Matches.prepend, Matches.list_expire, Matches.flush, he, List.filter_cons, hk,
    decide_true, if_true, List.filter_nil, Matches.score, Int.not_lt.mpr hf, if_false]
  decide

theorem observe_heard (h : jail.observe p now stag ⟨0, t, MATCH_DEFSCORE⟩ w = (jail', w'))
    (hl : t.length < IPADDR_MAX) (hp : At inet t jail.ipaddrs p) : Heard now t jail jail' w w' := by
  have hb (hn : t ∉ Addrlist.texts jail.ipaddrs) : ∃ a, jail'.ipaddrs = (p.set a).list ∧
      (a.banned ↔ jail.settings.banscore ≤
        score jail.settings (expireMatches jail.settings now (seen p.here ⟨now, stag, 0, MATCH_DEFSCORE⟩))) := by
    have hb := observe_of_not_banned jail now stag ⟨0, t, MATCH_DEFSCORE⟩ w (Ipaddr.banned_create (hp.fresh hn))
    rwa [h] at hb
  obtain ⟨a, ha, _, he⟩ := observe_eq jail p now stag ⟨0, t, MATCH_DEFSCORE⟩ w
  have ⟨b, hj, htext, hset, heff⟩ : ∃ b, jail'.ipaddrs = (p.set b).list ∧ b.text = p.here.text ∧
      jail'.settings = jail.settings ∧ ((b.banned = p.here.banned ∧ w'.backend = w.backend) ∨
        (p.here.banned = false ∧ b.banned = true ∧ w'.backend = Backend.block t w.backend)) := by
    obtain ⟨_, _, ho, hw, _⟩ | ⟨_, _, hn, ho, hw, _⟩ := he
    all_goals obtain ⟨rfl, rfl⟩ := Prod.mk.inj (h.symm.trans ho)
    case inl => exact ⟨a, rfl, ha.text, rfl, .inl ⟨ha.banned, hw⟩⟩
    case inr =>
      have ht : a.text = t := ha.text.trans hp.text
      exact ⟨banned jail.settings a, rfl, ha.text, rfl,
        .inr ⟨by rw [← ha.banned]; exact Bool.eq_false_iff.mpr hn, rfl, ht ▸ hw⟩⟩
  have ⟨hm, hu, hs⟩ := hp.set hl htext
  refine ⟨hset, hj ▸ hm, hj ▸ hu, ?_, fun hn hs' hp' hf => ?_⟩
  case refine_1 =>
    rw [hj, hs, hp.here]
    exact heff
  case refine_2 =>
    have ⟨c, hc, hbc⟩ := hb hn
    obtain rfl : b = c := (List.cons.inj (List.append_cancel_left (hj.symm.trans hc))).1
    rw [hj, hs, hbc, score_new (hp.fresh hn) jail.settings hp' hf]
    exact hs'

theorem consume_heard (filter : Filter) (now : Int) (stag : UInt32) (w : World β)
    (hf : jail.settings.flags.hasFilter = false) (hv : AllValid inet jail.ipaddrs) (ht : Ipaddr.Valid inet t) :
    ∃ jail' w', jail.consume inet filter now stag t w = .ok (jail', w') ∧ Heard now t jail jail' w w' := by
  have hcap : jail.capture filter t = .ok (some ⟨0, t, MATCH_DEFSCORE⟩) := by
    simp [capture, hf, List.take_of_length_le (Nat.le_of_lt ht.length_lt)]
  obtain ⟨p, hp, _⟩ := track_of_valid hv ht
  exact ⟨_, _, consume_some hcap hp, observe_heard rfl ht.length_lt (at_of_track hv hp)⟩

end Jail

theorem Traced.messages_block (t : CString) (b : Traced (Publisher ⊕ β)) :
    (Backend.block t b).messages = b.messages ∨
    ∃ channel, (Backend.block t b).messages = b.messages ++ [⟨channel, t⟩] := by
  have hc := (messages_call b t).2.1
  simp only [Backend.block]
  split
  case isTrue  => exact .inl hc
  case isFalse =>
    have hb := (messages_call (Backend.check t b).2 t).2.2.2.2
    rwa [hc] at hb

-- How many turns a message may take: one for itself, and one for the message of the ban that it may lead to.
def Redis.Push.turns (l : List Ipaddr) : Push → Nat
  | .array _ _ t => if Jail.standing t l then 1 else 2
  | .other       => 1

def Redis.Subscriber.turns (l : List Ipaddr) (s : Subscriber) : Nat :=
  (s.inbox.map (Push.turns l)).sum

namespace Redis.Subscriber

variable {s s' : Subscriber}

-- Without a good connection nothing arrives, and there is nothing left to read.
def Coherent (s : Subscriber) : Prop :=
  s.conn = some false ∨ s.live = false ∧ s.inbox = []

theorem Renewed.coherent (h : Renewed s s') (hs : s.Coherent) : s'.Coherent := by
  obtain ⟨_, ⟨hc, hl, hi⟩ | ⟨hc, _⟩⟩ := h
  case inl => rw [Coherent, hc, hl, hi]; exact hs
  case inr => exact .inl hc

theorem coherent_restart (s : Subscriber) : s.restart.Coherent :=
  (connect_renewed _).coherent (.inr ⟨rfl, rfl⟩)

theorem Coherent.read (bufsize : Nat) (h : s.Coherent) : (s.read bufsize).2.Coherent := by
  simp only [Subscriber.read]
  split
  case h_1 hi =>
    dsimp only
    split
    case isTrue     => exact h
    case isFalse hl => exact .inr ⟨Bool.eq_false_iff.mpr hl, hi⟩
  case h_2 push inbox hi =>
    have hc : s.conn = some false := h.resolve_right fun hn => by simp [hi] at hn
    cases push
    case other => exact .inl hc
    case array =>
      dsimp only
      split <;> exact .inl hc

theorem Coherent.next (bufsize : Nat) (h : s.Coherent) : (s.next bufsize).2.Coherent := by
  have hc := (connect_renewed s).coherent h
  simp only [Subscriber.next]
  split
  case h_1 s₁ he => rw [he] at hc; exact hc.read bufsize
  case h_2 s₁ he => rw [he] at hc; exact hc

theorem Coherent.deliver (messages : List Message) (h : s.Coherent) : (s.deliver messages).Coherent := by
  simp only [Subscriber.deliver]
  split
  case isFalse   => exact h
  case isTrue hl => exact .inl (h.resolve_right fun hn => by simp [hl] at hn)

theorem Coherent.cut (n : Nat) (h : s.Coherent) : (s.cut n).Coherent :=
  h.imp id fun hn => ⟨rfl, by simp [Subscriber.cut, hn.2]⟩

-- With nothing to read, a call comes back empty, whether the connection is there or is made anew.
theorem next_nil (bufsize : Nat) (hi : s.inbox = []) :
    (s.next bufsize).1 = (0, []) ∧ (s.next bufsize).2.inbox = [] := by
  have hc : s.connect.2.inbox = [] := by
    obtain ⟨_, ⟨_, _, he⟩ | ⟨_, he⟩⟩ := connect_renewed s
    · exact he.trans hi
    · exact he
  simp only [Subscriber.next]
  split
  case h_2 s₁ he => rw [he] at hc; exact ⟨rfl, hc⟩
  case h_1 s₁ he =>
    rw [he] at hc
    simp only [Subscriber.read]
    split
    case h_1 hi     =>
      refine ⟨rfl, ?_⟩
      dsimp only
      split <;> exact hi
    case h_2 _ _ hi => exact absurd (hi.symm.trans hc) (List.cons_ne_nil _ _)

end Redis.Subscriber

namespace Node

section Coherent

variable {env : Env} {n n' : Node β} {a : Act}

-- The source of a jail that is not up may be anything.
def Coherent (n : Node β) : Prop :=
  n.system.up → ∀ s ∈ n.source, s.Coherent

theorem up_of_step {op : Op} {system : System (Traced (Publisher ⊕ β))} (h : n.system.Step env op system)
    (hn : ∀ params now, op ≠ .start params now) : n.system.up := by
  cases op
  case start params now => exact absurd rfl (hn params now)
  case process          => exact (System.process_eq h).1
  case ip               => exact (System.ip_eq h).1
  case set              => exact (System.set_eq h).1
  case stop             => exact (System.stop_eq h).up

theorem Coherent.operate {op : Op} (h : n.operate env op = some n') (hn : n.Coherent) : n'.Coherent := by
  obtain ⟨_, ⟨_, _, rfl, _, he⟩ | ⟨_, rfl, hs, _⟩ | ⟨hne, hs, he⟩⟩ := operate_eq h
  case inl     =>
    intro _ s hm
    obtain ⟨s₀, _, rfl⟩ := Option.map_eq_some_iff.mp (he ▸ hm : s ∈ n.load.source)
    exact s₀.coherent_restart
  case inr.inl => exact fun hu => absurd hu (by simp [(System.stop_eq hs).down])
  case inr.inr => exact fun _ s hm => hn (up_of_step hs hne) s (he ▸ hm)

theorem Coherent.act (h : n.act env a = some n') (hn : n.Coherent) : n'.Coherent := by
  obtain ⟨op, rfl, _, h⟩ | ⟨filter, now, rfl, _, hu, rfl⟩ | ⟨filter, now, source, rfl, _, hs, h⟩ |
    ⟨now, fate, rfl, _, rfl⟩ | ⟨k, source, rfl, hs, rfl⟩ := act_eq h
  case inl                 => exact hn.operate h
  case inr.inl             => exact fun _ => hn hu
  case inr.inr.inl         =>
    have hq (hu : n.system.up) : ∀ s ∈ some (source.next LOGLINE_MAX).2, s.Coherent :=
      fun s hm => Option.some.inj hm ▸ (hn hu source hs).next LOGLINE_MAX
    obtain rfl | ⟨_, _, _, _, rfl⟩ := next_eq h
    case inl => exact hq
    case inr => exact hq
  case inr.inr.inr.inl     => exact hn
  case inr.inr.inr.inr     => exact fun hu s hm => Option.some.inj hm ▸ (hn hu source hs).cut k

omit [Backend β] in
theorem Coherent.hear {messages : List Message} (hn : n.Coherent) : (n.hear messages).Coherent := by
  intro hu s hm
  obtain ⟨s₀, hs, rfl⟩ := Option.map_eq_some_iff.mp hm
  exact (hn hu s₀ hs).deliver messages

end Coherent

variable {env : Env} {filter : Filter} {now : Int} {n : Node β} {s : Subscriber}

-- A jail without a filter in the middle of its loop, with addresses to read.
structure Ready (env : Env) (filter : Filter) (now : Int) (s : Subscriber) (n : Node β) : Prop where
  phase    : n.phase = .reading filter now
  source   : n.source = some s
  coherent : s.Coherent
  filtered : n.system.jail.settings.flags.hasFilter = false
  findtime : 0 < n.system.jail.settings.findtime
  valid    : Jail.AllValid env.inet n.system.jail.ipaddrs
  holds    : s.Holds (Ipaddr.Valid env.inet)

theorem Ready.last (h : n.Ready env filter now s) (hi : s.inbox = []) :
    ∃ n', n.act env .next = some n' ∧ n'.system = n.system ∧ n'.phase = .finishing now ∧
    ∃ s' ∈ n'.source, s'.inbox = [] := by
  have ⟨hn, hi'⟩ := s.next_nil LOGLINE_MAX hi
  refine ⟨{ n with source := some (s.next LOGLINE_MAX).2, phase := .finishing now }, ?_, rfl, rfl, _, rfl, hi'⟩
  simp [act, h.phase, h.source, next, hn]

theorem Ready.turn {push : Push} {inbox : List Push} (h : n.Ready env filter now s) (hi : s.inbox = push :: inbox) :
    ∃ t, push = .array "message".toList s.hash t ∧ Ipaddr.Valid env.inet t ∧
    ∃ n', n.act env .next = some n' ∧ ∃ s', s'.inbox = inbox ∧ n'.Ready env filter now s' ∧
    Jail.Heard now t n.system.jail n'.system.jail n.system.world n'.system.world := by
  obtain ⟨t, rfl, ht⟩ := h.holds.messages push (hi ▸ List.mem_cons_self)
  have hl : t.strlcpy LOGLINE_MAX = t :=
    CString.strlcpy_of_lt (Nat.lt_of_lt_of_le ht.length_lt (by decide))
  have hc : s.conn = some false := h.coherent.resolve_right fun hn => by simp [hi] at hn
  have hn : s.next LOGLINE_MAX = ((0xFFFFFFFF, t), { s with inbox, received := (s.received + 1) % 2 ^ 32 }) := by
    simp [Subscriber.next, Subscriber.connect, hc, Subscriber.read, hi, hl]
  obtain ⟨jail, world, hj, hd⟩ := Jail.consume_heard (w := n.system.world) filter now 0xFFFFFFFF h.filtered h.valid ht
  refine ⟨t, rfl, ht, { n with system := { n.system with jail, world }, source := some (s.next LOGLINE_MAX).2 }, ?_,
    { s with inbox, received := (s.received + 1) % 2 ^ 32 }, rfl, ?_, hd⟩
  case refine_1 => simp [act, h.phase, h.source, next, hn, hj]
  case refine_2 =>
    refine ⟨h.phase, by rw [hn], .inl hc, hd.settings ▸ h.filtered, hd.settings ▸ h.findtime, fun u hu => ?_,
      ⟨fun p hp => ?_⟩⟩
    case refine_1 =>
      obtain hu | rfl := (hd.mem u).mp hu
      · exact h.valid u hu
      · exact ht
    case refine_2 => exact h.holds.messages p (hi ▸ List.mem_cons_of_mem _ hp)

-- What a jail hears while it is in its loop is left for later turns.
omit [Backend β] in
theorem Ready.hear {messages : List Message} (h : n.Ready env filter now s)
    (hm : ∀ m ∈ messages, Ipaddr.Valid env.inet m.text) :
    (n.hear messages).Ready env filter now (s.deliver messages) :=
  ⟨h.phase, by simp [Node.hear, h.source], h.coherent.deliver messages, h.filtered, h.findtime, h.valid,
    h.holds.deliver hm⟩

end Node

namespace Redis.Subscriber

variable {l l' : List Ipaddr} {s : Subscriber} {messages : List Message}

theorem mem_deliver (s : Subscriber) (messages : List Message) :
    ∀ push ∈ s.inbox, push ∈ (s.deliver messages).inbox := by
  intro push hp
  simp only [deliver]
  split
  · exact List.mem_append_left _ hp
  · exact hp

theorem turns_deliver (l : List Ipaddr) (s : Subscriber) (messages : List Message) :
    (s.deliver messages).turns l ≤
      s.turns l + (messages.map fun m => (Push.array "message".toList m.channel m.text).turns l).sum := by
  simp only [deliver]
  split
  case isFalse => exact Nat.le_add_right ..
  case isTrue  =>
    simp only [turns, List.map_append, List.sum_append, List.map_map]
    exact Nat.add_le_add_left (List.Sublist.sum_le_sum (List.filter_sublist.map _) (fun _ _ => Nat.zero_le _)) _

theorem turns_le (inbox : List Push) (h : ∀ t, Jail.standing t l → Jail.standing t l') :
    (inbox.map (Push.turns l')).sum ≤ (inbox.map (Push.turns l)).sum := by
  refine List.sum_le_sum fun push _ => ?_
  cases push
  case other     => exact Nat.le_refl _
  case array _ _ t _ =>
    have ht := h t
    simp only [Push.turns]
    grind

end Redis.Subscriber

-- What a jail has made of the addresses that wait for it: there is a record for each, and a host that was new is
-- banned if one match is enough. Nothing is forgotten and no ban ends.
structure Jail.TakesOver (now : Int) (waits : CString → Prop) (jail jail' : Jail) : Prop where
  settings : jail'.settings = jail.settings
  texts    : ∀ u ∈ Addrlist.texts jail.ipaddrs, u ∈ Addrlist.texts jail'.ipaddrs
  standing : ∀ u, Jail.standing u jail.ipaddrs → Jail.standing u jail'.ipaddrs
  mem      : ∀ t, waits t → t ∈ Addrlist.texts jail'.ipaddrs
  fresh    : ∀ t, waits t → t ∉ Addrlist.texts jail.ipaddrs → jail.settings.banscore ≤ MATCH_DEFSCORE →
    0 < jail.settings.findtime → jail.settings.findtime ≤ now → Jail.standing t jail'.ipaddrs

namespace Jail

variable {jail jail₁ jail₂ : Jail} {w w₁ : World β} {now : Int} {t : CString} {waits waits' : CString → Prop}

theorem TakesOver.refl (h : ∀ t, ¬waits t) : TakesOver now waits jail jail :=
  ⟨rfl, fun _ => id, fun _ => id, fun t ht => absurd ht (h t), fun t ht => absurd ht (h t)⟩

theorem Heard.standing (h : Heard now t jail jail₁ w w₁) (u : CString) (hu : Jail.standing u jail.ipaddrs) :
    Jail.standing u jail₁.ipaddrs := by
  by_cases he : u = t
  case neg => rw [h.others u he]; exact hu
  case pos =>
    subst he
    obtain ⟨he, _⟩ | ⟨_, he, _⟩ := h.effect
    case inl => rw [he]; exact hu
    case inr => exact he

theorem Heard.takesOver (h : Heard now t jail jail₁ w w₁) (h' : TakesOver now waits' jail₁ jail₂)
    (hw : ∀ u, waits u → u = t ∨ waits' u) : TakesOver now waits jail jail₂ := by
  refine ⟨h'.settings.trans h.settings, fun u hu => h'.texts u ((h.mem u).mpr (.inl hu)),
    fun u hu => h'.standing u (h.standing u hu), fun u hu => ?_, fun u hu hn hs hp hf => ?_⟩
  case refine_1 =>
    obtain rfl | hu := hw u hu
    · exact h'.texts u ((h.mem u).mpr (.inr rfl))
    · exact h'.mem u hu
  case refine_2 =>
    by_cases he : u = t
    case pos =>
      subst he
      exact h'.standing u (h.fresh hn hs hp hf)
    case neg =>
      refine h'.fresh u ((hw u hu).resolve_left he) (fun hm => ?_) (h.settings ▸ hs) (h.settings ▸ hp) (h.settings ▸ hf)
      exact ((h.mem u).mp hm).elim hn he

end Jail

section Runs

variable {κ : Type} [DecidableEq κ] {env : κ → Env} {net net' : κ → Node β} {k : κ} {filter : Filter} {now : Int}
  {s : Subscriber}

def Redis.Subscriber.Waits (s : Subscriber) (t : CString) : Prop :=
  ∃ kind channel, Push.array kind channel t ∈ s.inbox

-- A turn of a jail in the network. The message of its ban may come back to it, but then the ban stands.
theorem turn_step {push : Push} {inbox : List Push} (h : (net k).Ready (env k) filter now s)
    (hi : s.inbox = push :: inbox) :
    ∃ t net' s', push = .array "message".toList s.hash t ∧ (network env).Step net (.act k .next) net' ∧
    (net' k).Ready (env k) filter now s' ∧ (∀ p ∈ inbox, p ∈ s'.inbox) ∧
    s'.turns (net' k).system.jail.ipaddrs < s.turns (net k).system.jail.ipaddrs ∧
    Jail.Heard now t (net k).system.jail (net' k).system.jail (net k).system.world (net' k).system.world := by
  obtain ⟨t, rfl, ht, n', ha, s', rfl, hr, hd⟩ := h.turn hi
  let sent := n'.sent.drop (net k).sent.length
  have hs : (network env).Step net (.act k .next)
      fun j => Node.hear sent (Function.update net k n' j) := by
    simp [Broadcast.Step, Broadcast.step, network, Node.done, ha, sent]
  have hk : Node.hear sent (Function.update net k n' k) = n'.hear sent := by rw [Function.update_self]
  have hsent : sent = [] ∨ ∃ channel, sent = [⟨channel, t⟩] ∧
      Jail.standing t (net k).system.jail.ipaddrs = false ∧ Jail.standing t n'.system.jail.ipaddrs = true := by
    obtain ⟨_, hb⟩ | ⟨hb₁, hb₂, hb⟩ := hd.effect
    case inl => exact .inl (by simp [sent, Node.sent, hb])
    case inr =>
      obtain hm | ⟨channel, hm⟩ := Traced.messages_block t (net k).system.world.backend
      case inl => exact .inl (by simp [sent, Node.sent, hb, hm])
      case inr => exact .inr ⟨channel, by simp [sent, Node.sent, hb, hm], hb₁, hb₂⟩
  have ht' : ∀ m ∈ sent, m.text = t := by
    obtain he | ⟨channel, he, _⟩ := hsent <;> simp [he]
  refine ⟨t, _, s'.deliver sent, rfl, hs, ?_, s'.mem_deliver sent, ?_, ?_⟩
  all_goals rw [hk]
  case refine_1 => exact hr.hear fun m hm => ht' m hm ▸ ht
  case refine_3 => exact hd
  case refine_2 =>
    have h₁ := s'.turns_deliver n'.system.jail.ipaddrs sent
    have h₂ := Redis.Subscriber.turns_le s'.inbox hd.standing
    have h₃ : s.turns (net k).system.jail.ipaddrs =
        (Push.array "message".toList s.hash t).turns (net k).system.jail.ipaddrs +
          (s'.inbox.map (Push.turns (net k).system.jail.ipaddrs)).sum := by
      simp [Redis.Subscriber.turns, hi]
    simp only [Node.hear] at h₁ ⊢
    obtain he | ⟨channel, he, hb₁, hb₂⟩ := hsent
    case inl =>
      have hw : 0 < (Push.array "message".toList s.hash t).turns (net k).system.jail.ipaddrs := by
        simp only [Push.turns]
        split <;> omega
      simp only [he, List.map_nil, List.sum_nil] at h₁ ⊢
      exact Nat.lt_of_le_of_lt (h₁.trans h₂) (by omega)
    case inr =>
      simp only [he, List.map_cons, List.map_nil, List.sum_cons, List.sum_nil, Push.turns, hb₂, if_true] at h₁ ⊢
      simp only [Push.turns, hb₁, Bool.false_eq_true, if_false] at h₃
      refine Nat.lt_of_le_of_lt (h₁.trans (Nat.add_le_add_right h₂ _)) (by omega)

-- A jail without a filter reads all that waits for it, by turns of its own.
theorem reads (h : (net k).Ready (env k) filter now s) :
    ∃ m net', Steps (network env).Step net (List.replicate m (.act k .next)) net' ∧
    (net' k).phase = .finishing now ∧ (∃ s' ∈ (net' k).source, s'.inbox = []) ∧
    Jail.TakesOver now s.Waits (net k).system.jail (net' k).system.jail := by
  induction hn : s.turns (net k).system.jail.ipaddrs using Nat.strong_induction_on generalizing net s
  case h turns hi =>
    cases he : s.inbox
    case nil               =>
      obtain ⟨n', ha, hsys, hp, s', hs, hs'⟩ := h.last he
      let sent := n'.sent.drop (net k).sent.length
      have hstep : (network env).Step net (.act k .next) fun j => Node.hear sent (Function.update net k n' j) := by
        simp [Broadcast.Step, Broadcast.step, network, Node.done, ha, sent]
      have hsent : sent = [] := by simp [sent, Node.sent, hsys]
      have hd : (s'.deliver sent).inbox = [] := by
        rw [hsent]
        simp only [Subscriber.deliver]
        split <;> simp [hs']
      refine ⟨1, _, .step hstep .refl, ?_⟩
      rw [Function.update_self]
      refine ⟨hp, ⟨_, Option.mem_map_of_mem _ hs, hd⟩, ?_⟩
      rw [show (n'.hear sent).system = (net k).system from hsys]
      refine .refl fun t ht => ?_
      obtain ⟨kind, channel, ht⟩ := ht
      rw [he] at ht
      cases ht
    case cons push inbox =>
      obtain ⟨t, net₁, s₁, rfl, hs, hr, hm, hlt, hd⟩ := turn_step h he
      obtain ⟨m, net', r, hp, hs', ht⟩ := hi _ (hn ▸ hlt) hr rfl
      refine ⟨m + 1, net', .step hs r, hp, hs', hd.takesOver ht fun u hu => ?_⟩
      obtain ⟨kind, channel, hu⟩ := hu
      rw [he] at hu
      obtain hu | hu := List.mem_cons.mp hu
      case inl =>
        obtain ⟨_, _, rfl⟩ := Push.array.inj hu
        exact .inl rfl
      case inr => exact .inr ⟨kind, channel, hm _ hu⟩

theorem Sourced.valid {names : κ → CString} {es : List (Broadcast.Event κ Act Message)} {inet : Inet} {t : CString}
    (h : Sourced env names net es t) (hi : ∀ k t, Ipaddr.Valid (env k).inet t → Ipaddr.Valid inet t)
    (hm : ∀ m, .say m ∈ es → Ipaddr.Valid inet m.text) : Ipaddr.Valid inet t := by
  obtain ⟨k, ht⟩ | ⟨pre, e, post, s, rfl, _, hn⟩ := h
  case inl => exact hi k _ (System.valid_of_mem_kept ht)
  case inr =>
    cases e
    case say m   => exact (show m.text = t from hn) ▸ hm m (by simp)
    case act k a =>
      refine hi k t ?_
      cases a
      case operate op => exact hn.1
      case next       => exact hn.2.1
      all_goals exact hn.elim

theorem coherent_of_steps {names : κ → CString} {es : List (Broadcast.Event κ Act Message)}
    (h₀ : ∀ k, (net k).New (names k)) (r : Steps (network env).Step net es net') (k : κ) : (net' k).Coherent := by
  refine Broadcast.each_of_steps (P := fun _ n => n.Coherent) k ?_ (fun _ _ _ hn => hn.hear) r ?_
  case refine_1 =>
    intro _ n a n' sent h hn
    obtain ⟨n', ha, he⟩ := Option.map_eq_some_iff.mp h
    obtain ⟨rfl, rfl⟩ := Prod.mk.inj he
    exact hn.act ha
  case refine_2 =>
    intro hu
    rw [(h₀ k).system] at hu
    cases hu

-- From any state of a run whose messages by hand are addresses, a jail that is in its loop and has no filter can read
-- all that has been sent to it, and takes it over.
theorem taken_over {names : κ → CString} {es : List (Broadcast.Event κ Act Message)}
    (hi : ∀ j t, Ipaddr.Valid (env j).inet t → Ipaddr.Valid (env k).inet t) (h₀ : ∀ k, (net k).New (names k))
    (r : Steps (network env).Step net es net') (hm : ∀ m, .say m ∈ es → Ipaddr.Valid (env k).inet m.text)
    (hp : (net' k).phase = .reading filter now) (hs : (net' k).source = some s)
    (hf : (net' k).system.jail.settings.flags.hasFilter = false) :
    ∃ m net'', Steps (network env).Step net' (List.replicate m (.act k .next)) net'' ∧
    (net'' k).phase = .finishing now ∧ (∃ s'' ∈ (net'' k).source, s''.inbox = []) ∧
    Jail.TakesOver now s.Waits (net' k).system.jail (net'' k).system.jail := by
  have hn := accounted_of_steps h₀ r k
  have hu : (net' k).system.up := hn.up (by simp [hp])
  have ⟨hr, hv⟩ := hn.system.wellformed hu
  refine reads ⟨hp, hs, coherent_of_steps h₀ r k hu s hs, hf, hr.findtime, hv, ?_⟩
  exact (hn.source s hs).mono fun t ht => ht.valid hi hm

section Example

-- The actor has begun its pass when the message of the sensor waits for it.
def begunEvents : List (Broadcast.Event Host Act Message) :=
  sharedEvents.take 4

theorem taken_over_shared :
    ∃ net net' m, Transition.replay (network fun _ => System.quadEnv).step sharedNet begunEvents = some net ∧
    Steps (network fun _ => System.quadEnv).Step net (List.replicate m (.act .actor .next)) net' ∧
    "192.0.2.7".toList ∈ Addrlist.texts (net' .actor).system.jail.ipaddrs := by
  let net := (Transition.replay (network fun _ => System.quadEnv).step sharedNet begunEvents).get (by decide +kernel)
  have hr : Transition.replay (network fun _ => System.quadEnv).step sharedNet begunEvents = some net :=
    (Option.some_get _).symm
  let source := (net .actor).source.get (by decide +kernel)
  have hs : (net .actor).source = some source := (Option.some_get _).symm
  have hw : Push.array "message".toList "f2b-banned-ssh".toList "192.0.2.7".toList ∈ source.inbox := by decide +kernel
  have hp : (net .actor).phase = .reading (fun _ => .ok none) 1011 := rfl
  have hm : ∀ m, Broadcast.Event.say m ∈ begunEvents → Ipaddr.Valid System.quadEnv.inet m.text :=
    fun m hm => by simp [begunEvents, sharedEvents] at hm
  obtain ⟨m, net', r, _, _, ht⟩ :=
    taken_over (k := .actor) (fun _ _ => id) new_sharedNet (.of_replay hr) hm hp hs (by decide +kernel)
  exact ⟨net, net', m, hr, r, ht.mem _ ⟨_, _, hw⟩⟩

end Example
end Runs
end F2b
