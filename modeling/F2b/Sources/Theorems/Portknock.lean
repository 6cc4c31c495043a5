import F2b.Objects.Handlers
import F2b.Sources.Portknock
import Mathlib.Data.List.Infix

-- The values of 'listen' that are taken, and those that the documentation has.

namespace F2b.Sources.Portknock

open CString

section Definitions

def Number (port : CString) : Prop :=
  port ≠ [] ∧ port.length ≤ 5 ∧ ∀ c ∈ port, isdigit c

inductive Documented (inet : Inet) : CString → CString → CString → Prop
  | inet6 {ip port : CString} :
    Ipaddr.IsA inet .inet6 ip → Number port → Documented inet ('[' :: ip ++ "]:".toList ++ port) ip port
  | inet {ip port : CString} :
    Ipaddr.IsA inet .inet ip → Number port → Documented inet (ip ++ ':' :: port) ip port
  | port {port : CString} :
    Number port → Documented inet port "0.0.0.0".toList port

def record (host port : CString) : Port :=
  { Port.zero with host, port }

-- A documented value is taken with its host and its port, any other one is refused.
structure Exact (inet : Inet) (value : CString) : Prop where
  taken   : ∀ host port, Documented inet value host port →
    tryParseListenOpt .zero value = some (true, record host port)
  refused : (∀ host port, ¬Documented inet value host port) → tryParseListenOpt .zero value = some (false, .zero)

-- With a bracket at its front a value is refused, if it has a port. A value with a colon is taken, and so is a
-- short one that starts with a digit.
def Fitting (inet : Inet) (value : CString) : Prop :=
  if value.head? = some '[' then
    "]:".toList <:+: value.strlcpy 256 ∧
    ∀ ip port, Ipaddr.IsA inet .inet6 ip → Number port → value ≠ '[' :: ip ++ "]:".toList ++ port
  else if ':' ∈ value.strlcpy 256 then
    ∃ ip port, Ipaddr.IsA inet .inet ip ∧ Number port ∧ value = ip ++ ':' :: port
  else
    value.head?.any isdigit → value.length ≤ 5 → ∀ c ∈ value, isdigit c

end Definitions

section Values

variable {inet : Inet} {value ip host port : CString}

theorem Number.strlcpy (h : Number port) : port.strlcpy PORT_MAX = port :=
  strlcpy_of_lt (Nat.lt_succ_of_le h.2.1)

theorem Number.not_mem (h : Number port) {c : Char} (hc : isdigit c = false) : c ∉ port := by
  intro hm
  rw [h.2.2 c hm] at hc
  cases hc

theorem Documented.bracket (h : Documented inet value host port) (hf : value.head? = some '[') :
    Ipaddr.IsA inet .inet6 host ∧ Number port ∧ value = '[' :: host ++ "]:".toList ++ port := by
  cases h
  case inet6 hi hp => exact ⟨hi, hp, rfl⟩
  case port hp     => exact absurd (List.mem_of_head? hf) (hp.not_mem rfl)
  case inet hi hp  =>
    cases host
    case nil    => cases hf
    case cons c host =>
      obtain rfl := Option.some.inj hf
      exact absurd List.mem_cons_self (hi.not_mem (by decide))

theorem Documented.colon (h : Documented inet value host port) (hf : value.head? ≠ some '[') (hc : ':' ∈ value) :
    Ipaddr.IsA inet .inet host ∧ Number port ∧ value = host ++ ':' :: port := by
  cases h
  case inet6      => exact absurd rfl hf
  case inet hi hp => exact ⟨hi, hp, rfl⟩
  case port hp    => exact absurd hc (hp.not_mem rfl)

theorem Documented.number (h : Documented inet value host port) (hf : value.head? ≠ some '[') (hc : ':' ∉ value) :
    Number value ∧ host = "0.0.0.0".toList ∧ port = value := by
  cases h
  case inet6   => exact absurd rfl hf
  case inet    => exact absurd (by simp) hc
  case port hp => exact ⟨hp, rfl, rfl⟩

theorem Documented.length_lt (h : Documented inet value host port) : value.length < 256 := by
  cases h
  case inet6 hi hp =>
    have := hi.length_lt
    have := hp.2.1
    simp only [List.length_append, List.length_cons, IPADDR_MAX] at *
    simp
    omega
  case inet hi hp  =>
    have := hi.length_lt
    have := hp.2.1
    simp only [List.length_append, List.length_cons, IPADDR_MAX] at *
    omega
  case port hp     => exact Nat.lt_of_le_of_lt hp.2.1 (by decide)

theorem head_strlcpy (value : CString) : (value.strlcpy 256).head? = value.head? := by
  cases value <;> rfl

theorem exact_bracket_iff (hf : value.head? = some '[') : Exact inet value ↔ Fitting inet value := by
  have hb : (value.strlcpy 256).head? = some '[' := head_strlcpy value ▸ hf
  rw [Fitting, if_pos hf]
  cases hs : strstr "]:".toList (value.strlcpy 256)
  case none =>
    have hp : tryParseListenOpt .zero value = none := by rw [tryParseListenOpt, if_pos hb, hs]
    constructor
    case mp  =>
      intro h
      by_cases hd : ∃ host port, Documented inet value host port
      case pos =>
        obtain ⟨host, port, hd⟩ := hd
        cases hp.symm.trans (h.taken host port hd)
      case neg =>
        cases hp.symm.trans (h.refused fun host port h => hd ⟨host, port, h⟩)
    case mpr => exact fun h => absurd h.1 (strstr_eq_none_iff.mp hs)
  case some _ =>
    have hp : tryParseListenOpt .zero value = some (false, .zero) := by rw [tryParseListenOpt, if_pos hb, hs]
    have hi : "]:".toList <:+: value.strlcpy 256 := by
      by_contra hn
      rw [strstr_eq_none_iff.mpr hn] at hs
      cases hs
    constructor
    case mp  =>
      refine fun h => ⟨hi, ?_⟩
      rintro ip port ha hn rfl
      cases hp.symm.trans (h.taken ip port (.inet6 ha hn))
    case mpr =>
      intro h
      refine ⟨fun host port hd => ?_, fun _ => hp⟩
      have ⟨ha, hn, he⟩ := hd.bracket hf
      exact absurd he (h.2 host port ha hn)

theorem exact_colon_iff (hf : value.head? ≠ some '[') (hc : ':' ∈ value.strlcpy 256) :
    Exact inet value ↔ Fitting inet value := by
  have hb : (value.strlcpy 256).head? ≠ some '[' := head_strlcpy value ▸ hf
  have hv : ':' ∈ value := (List.take_prefix ..).subset hc
  rw [Fitting, if_neg hf, if_pos hc]
  obtain ⟨i, hi⟩ := Option.ne_none_iff_exists'.mp (mt strchr_eq_none_iff.mp (not_not_intro hc))
  obtain ⟨u, v, he, hu, rfl⟩ := strchr_eq_some_iff.mp hi
  have hp : tryParseListenOpt .zero value = some (true, record (u.strlcpy HOST_MAX) (CString.strlcpy v PORT_MAX)) := by
    simp only [tryParseListenOpt, if_neg hb, hi]
    simp [he, record]
  constructor
  case mp  =>
    intro h
    by_contra hn
    have hr := h.refused fun host port hd => hn ⟨host, port, hd.colon hf hv⟩
    cases hp.symm.trans hr
  case mpr =>
    rintro ⟨ip, port, ha, hn, rfl⟩
    have hd : Documented inet (ip ++ ':' :: port) ip port := .inet ha hn
    have hip : ':' ∉ ip := Ipaddr.family_eq_inet_iff.mp ha.1
    have hpo : ':' ∉ port := hn.not_mem rfl
    rw [strlcpy_of_lt hd.length_lt] at he
    obtain ⟨rfl, _, rfl⟩ := (List.append_cons_inj_of_notMem hip hpo).mp he
    have hs : ip.strlcpy HOST_MAX = ip := strlcpy_of_lt ha.length_lt
    rw [hn.strlcpy, hs] at hp
    refine ⟨fun host port' hd' => ?_, fun h => absurd hd (h _ _)⟩
    have ⟨_, _, he⟩ := hd'.colon hf hv
    obtain ⟨rfl, _, rfl⟩ := (List.append_cons_inj_of_notMem hip hpo).mp he
    exact hp

theorem exact_number_iff (hf : value.head? ≠ some '[') (hc : ':' ∉ value.strlcpy 256) :
    Exact inet value ↔ Fitting inet value := by
  have hb : (value.strlcpy 256).head? ≠ some '[' := head_strlcpy value ▸ hf
  have hd : ∀ {host port}, Documented inet value host port →
      Number value ∧ host = "0.0.0.0".toList ∧ port = value := fun h =>
    h.number hf (strlcpy_of_lt h.length_lt ▸ hc)
  rw [Fitting, if_neg hf, if_neg hc]
  by_cases hs : value.head?.any isdigit ∧ value.length ≤ 5
  case pos =>
    have hl : value.strlcpy 256 = value := strlcpy_of_lt (Nat.lt_of_le_of_lt hs.2 (by decide))
    have hp : tryParseListenOpt .zero value = some (true, record "0.0.0.0".toList (value.strlcpy PORT_MAX)) := by
      rw [hl] at hc
      simp only [tryParseListenOpt, hl, if_neg hf, strchr_eq_none_iff.mpr hc, if_pos hs]
      rfl
    have hn : value ≠ [] := by
      rintro rfl
      exact absurd hs.1 (by decide)
    constructor
    case mp  =>
      intro h _ _
      by_contra hn
      cases hp.symm.trans (h.refused fun _ _ h => hn (hd h).1.2.2)
    case mpr =>
      intro h
      have hv : Number value := ⟨hn, hs.2, h hs.1 hs.2⟩
      refine ⟨fun host port h => ?_, fun h => absurd (.port hv) (h _ _)⟩
      obtain ⟨_, rfl, rfl⟩ := hd h
      rw [hp, hv.strlcpy]
  case neg =>
    have hs' : ¬((value.strlcpy 256).head?.any isdigit ∧ (value.strlcpy 256).length ≤ 5) := by
      rw [head_strlcpy]
      rintro ⟨h, hl⟩
      refine hs ⟨h, ?_⟩
      simp only [strlcpy, List.length_take] at hl
      omega
    have hp : tryParseListenOpt .zero value = some (false, .zero) := by
      simp only [tryParseListenOpt, if_neg hb, strchr_eq_none_iff.mpr hc, if_neg hs']
    refine ⟨fun _ h hl => absurd ⟨h, hl⟩ hs, fun _ => ⟨fun host port h => ?_, fun _ => hp⟩⟩
    obtain ⟨⟨hn, hl, hv⟩, _⟩ := hd h
    obtain ⟨c, rest, rfl⟩ := List.exists_cons_of_ne_nil hn
    exact absurd ⟨hv c List.mem_cons_self, hl⟩ hs

theorem exact_iff_fitting (inet : Inet) (value : CString) : Exact inet value ↔ Fitting inet value := by
  by_cases hf : value.head? = some '['
  case pos => exact exact_bracket_iff hf
  case neg =>
    by_cases hc : ':' ∈ value.strlcpy 256
    case pos => exact exact_colon_iff hf hc
    case neg => exact exact_number_iff hf hc

theorem not_exact_loopback : ¬∀ value, Exact .dual value := by
  intro h
  have hi : Ipaddr.IsA .dual .inet6 "::1".toList := by decide
  have hn : Number "23".toList := ⟨by decide, by decide, forall_of_all (by decide)⟩
  cases (h "[::1]:23".toList).taken _ _ (.inet6 hi hn)

end Values

section Config

def view (cfg : Config) : F2b.Portknock where
  ports := cfg.ports.map fun port => (port.host, port.port)
  ready := cfg.ready

def parsed (value : CString) : Option (CString × CString) :=
  match tryParseListenOpt .zero value with
  | some (true, port) => some (port.host, port.port)
  | _                 => none

theorem view_config {cfg cfg' : Config} {key value : CString} {ok : Bool}
    (h : config cfg key value = some (ok, cfg')) :
    F2b.Portknock.config parsed (view cfg) key value = (ok, view cfg') := by
  rw [config] at h
  rw [F2b.Portknock.config]
  split at h
  case isFalse hk =>
    obtain ⟨rfl, rfl⟩ := Prod.mk.inj (Option.some.inj h)
    rw [if_neg hk]
  case isTrue hk  =>
    rw [if_pos hk, parsed]
    split at h
    case h_1       => cases h
    case h_2 hp =>
      obtain ⟨rfl, rfl⟩ := Prod.mk.inj (Option.some.inj h)
      rw [hp]
    case h_3 hp =>
      obtain ⟨rfl, rfl⟩ := Prod.mk.inj (Option.some.inj h)
      rw [hp]
      rfl

end Config

end F2b.Sources.Portknock
