import F2b.Csocket.Sock
import F2b.Objects.Ipaddr
import Mathlib.Data.List.Infix

-- The pair of a host and a port that an address stands for, and the one that is looked up.

namespace F2b.Sock

open CString

section Definitions

inductive Intended (inet : Inet) : CString → CString × CString → Prop
  | hostPort {host port : CString} :
    ':' ∉ host → ':' ∉ port → Intended inet (host ++ ':' :: port) (host, port)
  | host {host : CString} :
    ':' ∉ host → Intended inet host (host, CSOCKET_DEFAULT_PORT)
  | bracketPort {ip port : CString} :
    Ipaddr.IsA inet .inet6 ip → Intended inet ('[' :: ip ++ "]:".toList ++ port) (ip, port)
  | bracket {ip : CString} :
    Ipaddr.IsA inet .inet6 ip → Intended inet ('[' :: ip ++ "]".toList) (ip, CSOCKET_DEFAULT_PORT)
  | bare {ip : CString} :
    Ipaddr.IsA inet .inet6 ip → "::".toList <:+: ip → Intended inet ip (ip, CSOCKET_DEFAULT_PORT)

-- A port is not cut off from what ends in a bracket, and what starts with one has no port. The address
-- fits the buffer, or its host alone does and the port is the default.
def Plain (addr : CString) : Prop :=
  (addr.length < SOCK_HOST_SIZE ∧ (':' ∈ addr → addr.head? ≠ some '[' ∧ ¬"]:".toList <:+: addr)) ∨
  (':' ∉ addr.strlcpy SOCK_HOST_SIZE ∧ addr = addr.strlcpy SOCK_HOST_SIZE ++ ':' :: CSOCKET_DEFAULT_PORT)

end Definitions

section Texts

variable {inet : Inet} {addr ip : CString}

theorem strlcpy_prefix_self (addr : CString) (size : Nat) : addr.strlcpy size <+: addr :=
  List.take_prefix ..

theorem hostPort_spec (addr : CString) :
    (∃ u v, addr.strlcpy SOCK_HOST_SIZE = u ++ "]:".toList ++ v ∧ hostPort addr = (u, v)) ∨
    ¬"]:".toList <:+: addr.strlcpy SOCK_HOST_SIZE ∧
    ((∃ u v, addr.strlcpy SOCK_HOST_SIZE = u ++ ':' :: v ∧ ':' ∉ u ∧
        (addr.strlcpy SOCK_HOST_SIZE).head? ≠ some '[' ∧ ¬"::".toList <:+: addr.strlcpy SOCK_HOST_SIZE ∧
        hostPort addr = (u, v)) ∨
      ((':' ∈ addr.strlcpy SOCK_HOST_SIZE → (addr.strlcpy SOCK_HOST_SIZE).head? = some '[' ∨
          "::".toList <:+: addr.strlcpy SOCK_HOST_SIZE) ∧
        hostPort addr = (addr.strlcpy SOCK_HOST_SIZE, CSOCKET_DEFAULT_PORT))) := by
  generalize hh : addr.strlcpy SOCK_HOST_SIZE = host
  rw [hostPort, hh]
  cases hb : strstr "]:".toList host
  case some i =>
    obtain ⟨u, v, rfl, rfl⟩ := eq_of_strstr hb
    exact .inl ⟨u, v, rfl, by simp⟩
  case none   =>
    refine .inr ⟨strstr_eq_none_iff.mp hb, ?_⟩
    by_cases hf : host.head? = some '['
    case pos => exact .inr ⟨fun _ => .inl hf, by simp [hf]⟩
    case neg =>
      by_cases hd : strstr "::".toList host = none
      case neg =>
        refine .inr ⟨fun _ => .inr ?_, ?_⟩
        · simpa using mt strstr_eq_none_iff.mpr hd
        · simp only [hf, hd, if_false, if_true, ne_eq, not_false_eq_true]
      case pos =>
        have hs : strstr ":".toList host = strchr host ':' := strstr_singleton ..
        cases hc : strchr host ':'
        case none   =>
          refine .inr ⟨fun hm => absurd hm (strchr_eq_none_iff.mp hc), ?_⟩
          simp only [hf, hd, hs, hc, if_false, ne_eq, not_true_eq_false]
        case some i =>
          obtain ⟨u, v, rfl, hu, rfl⟩ := strchr_eq_some_iff.mp hc
          refine .inl ⟨u, v, rfl, hu, hf, strstr_eq_none_iff.mp hd, ?_⟩
          simp only [hf, hd, hs, hc, if_false, ne_eq, not_true_eq_false]
          simp

-- Nothing that starts with a bracket is split into what it stands for.
theorem head_hostPort (h : addr.head? = some '[') : (hostPort addr).1.head? = some '[' := by
  have hh : (addr.strlcpy SOCK_HOST_SIZE).head? = some '[' := by
    obtain ⟨_, rfl⟩ := List.head?_eq_some_iff.mp h
    rfl
  obtain ⟨u, v, he, hp⟩ | ⟨_, ⟨_, _, _, _, hf, _⟩ | ⟨_, hp⟩⟩ := hostPort_spec addr
  case inl =>
    rw [hp]
    cases u
    case nil    => rw [he] at hh; cases hh
    case cons c => rw [he] at hh; exact hh
  case inr.inl => exact absurd hh hf
  case inr.inr => rwa [hp]

theorem not_plain_bracket (h : Ipaddr.IsA inet .inet6 ip) (rest : CString) : ¬Plain ('[' :: ip ++ rest) := by
  have hm : ':' ∈ strlcpy ('[' :: ip ++ rest) SOCK_HOST_SIZE := by
    have hl : ('[' :: ip).length ≤ SOCK_HOST_SIZE - 1 := Nat.le_trans h.length_lt (by decide)
    rw [strlcpy, List.take_append, List.take_of_length_le hl]
    exact List.mem_append_left _ (List.mem_cons_of_mem _ (Ipaddr.family_eq_inet6_iff.mp h.1))
  rintro (⟨_, hn⟩ | ⟨hn, _⟩)
  case inl => exact (hn ((strlcpy_prefix_self ..).subset hm)).1 rfl
  case inr => exact hn hm

end Texts

section Forms

variable {inet : Inet} {host port ip : CString}

theorem hostPort_host_port_iff (hh : ':' ∉ host) (hp : ':' ∉ port) :
    hostPort (host ++ ':' :: port) = (host, port) ↔ Plain (host ++ ':' :: port) := by
  have hl := (strlcpy_prefix_self (host ++ ':' :: port) SOCK_HOST_SIZE).length_le
  constructor
  case mp  =>
    intro h
    obtain ⟨u, v, he, hs⟩ | ⟨hb, ⟨u, v, he, _, hf, _, hs⟩ | ⟨_, hs⟩⟩ := hostPort_spec (host ++ ':' :: port)
    case inl     =>
      obtain ⟨rfl, rfl⟩ := Prod.mk.inj (hs.symm.trans h)
      have hb : "]:".toList.length = 2 := rfl
      simp only [he, List.length_append, List.length_cons, hb] at hl
      omega
    case inr.inl =>
      obtain ⟨rfl, rfl⟩ := Prod.mk.inj (hs.symm.trans h)
      have hs : (u ++ ':' :: v).length < SOCK_HOST_SIZE := by
        rw [← he]
        exact length_strlcpy_lt _ (by decide)
      rw [he] at hf hb
      exact .inl ⟨hs, fun _ => ⟨hf, hb⟩⟩
    case inr.inr =>
      have ⟨he, hd⟩ := Prod.mk.inj (hs.symm.trans h)
      exact .inr ⟨by rwa [he], by rw [he, hd]⟩
  case mpr =>
    rintro (⟨hs, hn⟩ | ⟨hn, he⟩)
    case inl =>
      have ⟨hf, hb⟩ := hn (by simp)
      have hc : ¬"::".toList <:+: host ++ ':' :: port := by
        intro hi
        have := hi.sublist.count_le ':'
        simp [List.count_eq_zero.mpr hh, List.count_eq_zero.mpr hp] at this
      have hh' := hostPort_spec (host ++ ':' :: port)
      rw [strlcpy_of_lt hs] at hh'
      obtain ⟨u, v, he, _⟩ | ⟨_, ⟨u, v, he, hu, _, _, hs⟩ | ⟨hs, _⟩⟩ := hh'
      case inl     => exact absurd ⟨u, v, he.symm⟩ hb
      case inr.inl =>
        obtain ⟨rfl, _, rfl⟩ := (List.append_cons_inj_of_notMem hh hp).mp he
        exact hs
      case inr.inr =>
        obtain hs | hs := hs (by simp)
        case inl => exact absurd hs hf
        case inr => exact absurd hs hc
    case inr =>
      obtain ⟨u, v, hb, _⟩ | ⟨_, ⟨u, v, hb, _⟩ | ⟨_, hs⟩⟩ := hostPort_spec (host ++ ':' :: port)
      case inl     => exact absurd (by simp [hb]) hn
      case inr.inl => exact absurd (by simp [hb]) hn
      case inr.inr =>
        obtain ⟨he, _, hd⟩ := (List.append_cons_inj_of_notMem hh hp).mp he
        rw [hs, ← he, hd]

theorem hostPort_host_iff (hh : ':' ∉ host) : hostPort host = (host, CSOCKET_DEFAULT_PORT) ↔ Plain host := by
  have hn : ':' ∉ host.strlcpy SOCK_HOST_SIZE := fun h => hh ((strlcpy_prefix_self ..).subset h)
  have hs : hostPort host = (host.strlcpy SOCK_HOST_SIZE, CSOCKET_DEFAULT_PORT) := by
    obtain ⟨u, v, hb, _⟩ | ⟨_, ⟨u, v, hb, _⟩ | ⟨_, hs⟩⟩ := hostPort_spec host
    case inl     => exact absurd (by simp [hb]) hn
    case inr.inl => exact absurd (by simp [hb]) hn
    case inr.inr => exact hs
  rw [hs]
  constructor
  case mp  =>
    intro h
    have hl := length_strlcpy_lt host (by decide : 0 < SOCK_HOST_SIZE)
    rw [(Prod.mk.inj h).1] at hl
    exact .inl ⟨hl, fun hm => absurd hm hh⟩
  case mpr =>
    rintro (⟨hl, _⟩ | ⟨_, he⟩)
    case inl => rw [strlcpy_of_lt hl]
    case inr => exact absurd (he ▸ by simp) hh

variable {inet : Inet}

theorem hostPort_bracket_iff (h : Ipaddr.IsA inet .inet6 ip) (rest : CString) :
    hostPort ('[' :: ip ++ rest) = (ip, port) ↔ Plain ('[' :: ip ++ rest) := by
  constructor
  case mp  =>
    intro he
    have hf : (hostPort ('[' :: ip ++ rest)).1.head? = some '[' := head_hostPort rfl
    rw [he] at hf
    exact absurd (List.mem_of_head? hf) (h.not_mem (by decide))
  case mpr => exact fun hp => absurd hp (not_plain_bracket h rest)

theorem hostPort_bare_iff (h : Ipaddr.IsA inet .inet6 ip) (hd : "::".toList <:+: ip) :
    hostPort ip = (ip, CSOCKET_DEFAULT_PORT) ↔ Plain ip := by
  have hl : ip.length < SOCK_HOST_SIZE := Nat.lt_trans h.length_lt (by decide)
  have hb : ¬"]:".toList <:+: ip := fun hi => h.not_mem (by decide : ']' ∉ _) (hi.subset (by decide))
  have hf : ip.head? ≠ some '[' := fun hf => h.not_mem (by decide) (List.mem_of_head? hf)
  have hs := hostPort_spec ip
  rw [strlcpy_of_lt hl] at hs
  obtain ⟨u, v, he, _⟩ | ⟨_, ⟨_, _, _, _, _, hn, _⟩ | ⟨_, hs⟩⟩ := hs
  case inl     => exact absurd ⟨u, v, he.symm⟩ hb
  case inr.inl => exact absurd hd hn
  case inr.inr => exact ⟨fun _ => .inl ⟨hl, fun _ => ⟨hf, hb⟩⟩, fun _ => hs⟩

end Forms

section Resolver

variable {inet : Inet} {addr : CString} {pair : CString × CString} {α : Type}
variable {getaddrinfo : CString → CString → Option α}

-- What is looked up is what the address stands for, if it is plain. With a bracket at its front nothing is
-- found, as no host has one.
theorem hostPort_iff_plain (h : Intended inet addr pair)
    (hg : ∀ host port, host.head? = some '[' → getaddrinfo host port = none) (bindTo : α → Option Nat) :
    (hostPort addr = pair ↔ Plain addr) ∧
    (addr.head? = some '[' → createInet getaddrinfo bindTo addr = none) := by
  refine ⟨?_, fun hf => by rw [createInet, hg _ _ (head_hostPort hf)]; rfl⟩
  cases h
  case hostPort hh hp  => exact hostPort_host_port_iff hh hp
  case host hh         => exact hostPort_host_iff hh
  case bracketPort h   =>
    rw [List.append_assoc]
    exact hostPort_bracket_iff h _
  case bracket h       => exact hostPort_bracket_iff h _
  case bare h hd       => exact hostPort_bare_iff h hd

def resolver (host port : CString) : Option (CString × CString) :=
  if host.head? = some '[' then none else some (host, port)

theorem inet6_loopback : Ipaddr.IsA .dual .inet6 "::1".toList := by
  decide

theorem hostPort_iff_plain_bare :
    (hostPort "::1".toList = ("::1".toList, "3370".toList) ↔ Plain "::1".toList) ∧
    ("::1".toList.head? = some '[' → createInet resolver (fun _ => some 4) "::1".toList = none) :=
  hostPort_iff_plain (.bare inet6_loopback (by decide)) (fun _ _ h => if_pos h) _

-- The address in the sample of a configuration file.
theorem not_always_hostPort :
    ¬∀ addr pair, Intended .dual addr pair → hostPort addr = pair := by
  intro h
  have hp := h _ _ (@Intended.bracketPort _ _ "12345".toList inet6_loopback)
  revert hp
  decide

end Resolver

end F2b.Sock
