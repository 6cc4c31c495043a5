import F2b.Backends.Cmd
import F2b.Lib.Marks
import Mathlib.Data.List.Induction
import Mathlib.Data.List.TakeDrop
import Mathlib.Data.Option.Basic
import Mathlib.Tactic.SplitIfs

-- The arguments of a command, and the tokens that are replaced in them.

namespace F2b.Exec

open CString (isblank)
open Words (words)

section Definitions

def subst (id : CString) (ip : Option CString) (token : CString) : CString :=
  if token = TOKEN_IP then ip.getD token else if token = TOKEN_ID then id else token

def arguments (id : CString) (ip : Option CString) (str : CString) : List CString :=
  (words isblank str).map (subst id ip)

-- The text starts with what its first token becomes, and no token to be replaced occurs twice after it. An id
-- that is used fits.
def Replaceable (id : CString) (ip : Option CString) (str : CString) : Prop :=
  ∃ t ts, words isblank str = t :: ts ∧ str.takeWhile isblank ++ t = subst id ip t ∧
    (∀ a ∈ ip, ts.count TOKEN_IP ≤ 1 ∨ a = TOKEN_IP) ∧
    (TOKEN_ID ∈ ts → id.length ≤ ID_MAX ∧ (ts.count TOKEN_ID ≤ 1 ∨ id = TOKEN_ID))

end Definitions

section Parse

-- The loop keeps the tokens, and the positions of the last ones that are to be replaced.
theorem foldl_add (cmd : Cmd) (args : CString) (h : cmd.argv = [args]) (hp : cmd.posIp = 0) (hd : cmd.posId = 0)
    (ts : List CString) :
    let cmd' := ts.foldl Cmd.add cmd
    cmd'.argv = args :: ts ∧ Marks.Last TOKEN_IP ts cmd'.posIp ∧ Marks.Last TOKEN_ID ts cmd'.posId := by
  induction ts using List.reverseRecOn
  case nil                  => exact ⟨h, hp ▸ Marks.last_nil _, hd ▸ Marks.last_nil _⟩
  case append_singleton ts t hi =>
    obtain ⟨ha, hp, hd⟩ := hi
    simp only [List.foldl_concat]
    refine ⟨by simp [Cmd.add, ha], ?_, ?_⟩
    case refine_1 => simpa [Cmd.add, ha] using hp.concat t
    case refine_2 => simpa [Cmd.add, ha] using hd.concat t

theorem cmdFromStr_spec (str : CString) :
    ∃ args, (cmdFromStr str).argv = args :: (words isblank str).tail ∧
      (∀ t ts, words isblank str = t :: ts → args = str.takeWhile isblank ++ t) ∧
      Marks.Last TOKEN_IP (words isblank str).tail (cmdFromStr str).posIp ∧
      Marks.Last TOKEN_ID (words isblank str).tail (cmdFromStr str).posId := by
  have ⟨ha, hp, hd⟩ := foldl_add (cmdStart str) _ rfl rfl rfl (words isblank str).tail
  exact ⟨_, ha, fun t ts h => by rw [Words.head_words h], hp, hd⟩

end Parse

section Fill

variable {cmd : Cmd} {args : CString} {ts : List CString}

-- A position that is remembered holds the text that is put there, and the others hold their tokens.
theorem set_spec (args a : CString) (ts : List CString) (k : Nat) :
    ∃ ts', (if k ≠ 0 then (args :: ts).set k a else args :: ts) = args :: ts' ∧ ts'.length = ts.length ∧
      ∀ i t, ts[i]? = some t → ts'[i]? = some (if k = i + 1 then a else t) := by
  cases k
  case zero   => exact ⟨ts, rfl, rfl, fun i t h => by simpa using h⟩
  case succ k =>
    refine ⟨ts.set k a, rfl, List.length_set, fun i t h => ?_⟩
    have hi := (List.getElem?_eq_some_iff.mp h).1
    rw [List.getElem?_set]
    by_cases hk : k = i
    case pos => simp [hk, hi]
    case neg => simp [hk, h]

theorem fill_spec (cfg : Cfg) (ip : Option CString) (ha : cmd.argv = args :: ts) :
    ∃ ts', cmd.fill cfg ip = (args :: ts').map some ++ [none] ∧ ts'.length = ts.length ∧
      ∀ i t, ts[i]? = some t → ts'[i]? = some (
        if cmd.posId = i + 1 then cfg.name else if cmd.posIp = i + 1 then ip.getD t else t) := by
  cases ip
  case none    =>
    have ⟨ts', hs, hl, ht⟩ := set_spec args cfg.name ts cmd.posId
    refine ⟨ts', ?_, hl, fun i t h => by simpa using ht i t h⟩
    simp only [Cmd.fill, ha, Option.elim_none, ite_self, hs]
  case some ip =>
    have ⟨ts₁, hs₁, hl₁, ht₁⟩ := set_spec args ip ts cmd.posIp
    have ⟨ts₂, hs₂, hl₂, ht₂⟩ := set_spec args cfg.name ts₁ cmd.posId
    refine ⟨ts₂, ?_, hl₂.trans hl₁, fun i t h => ht₂ i _ (ht₁ i t h)⟩
    simp only [Cmd.fill, ha, Option.elim_some, hs₁, hs₂]

end Fill

section Arguments

variable {id : CString} {ip : Option CString} {ts : List CString} {posIp posId : Nat}

theorem name_create_eq_iff : (create id).name = id ↔ id.length ≤ ID_MAX := by
  have hs : (create id).name = id ↔ id.length ≤ ID_MAX + 1 - 1 := List.take_eq_self_iff id
  exact hs

theorem eq_token {token t : CString} {k i : Nat} (h : Marks.Last token ts k) (hk : k = i + 1)
    (ht : ts[i]? = some t) : t = token := by
  have := h.getElem? (hk ▸ Nat.succ_ne_zero i)
  rw [hk, Nat.add_sub_cancel, ht] at this
  exact Option.some.inj this

theorem forall_subst_iff (hp : Marks.Last TOKEN_IP ts posIp) (hd : Marks.Last TOKEN_ID ts posId) :
    (∀ i t, ts[i]? = some t →
      (if posId = i + 1 then (create id).name else if posIp = i + 1 then ip.getD t else t) = subst id ip t) ↔
    (∀ a ∈ ip, ts.count TOKEN_IP ≤ 1 ∨ a = TOKEN_IP) ∧
    (TOKEN_ID ∈ ts → id.length ≤ ID_MAX ∧ (ts.count TOKEN_ID ≤ 1 ∨ id = TOKEN_ID)) := by
  have hn : TOKEN_ID ≠ TOKEN_IP := by decide
  constructor
  case mp  =>
    intro h
    refine ⟨fun a ha => ?_, fun hm => ⟨?_, ?_⟩⟩
    case refine_1 =>
      refine or_iff_not_imp_right.mpr fun hne => hp.forall_iff.mp fun i hi => ?_
      by_contra hk
      have hd' : posId ≠ i + 1 := fun hk => hn (eq_token hd hk hi).symm
      have hs := h i TOKEN_IP hi
      rw [if_neg hd', if_neg hk, subst, if_pos rfl, Option.mem_def.mp ha] at hs
      exact hne hs.symm
    case refine_2 =>
      have hk := hd.ne_zero_iff.mpr hm
      have hs := h _ _ (hd.getElem? hk)
      rw [if_pos (by omega), subst, if_neg hn, if_pos rfl] at hs
      exact name_create_eq_iff.mp hs
    case refine_3 =>
      refine or_iff_not_imp_right.mpr fun hne => hd.forall_iff.mp fun i hi => ?_
      by_contra hk
      have hp' : posIp ≠ i + 1 := fun hk => hn (eq_token hp hk hi)
      have hs := h i TOKEN_ID hi
      rw [if_neg hk, if_neg hp', subst, if_neg hn, if_pos rfl] at hs
      exact hne hs.symm
  case mpr =>
    rintro ⟨hip, hid⟩ i t ht
    by_cases hk : posId = i + 1
    case pos =>
      obtain rfl := eq_token hd hk ht
      rw [if_pos hk, subst, if_neg hn, if_pos rfl]
      exact name_create_eq_iff.mpr (hid (List.mem_of_getElem? ht)).1
    case neg =>
      rw [if_neg hk]
      by_cases hk' : posIp = i + 1
      case pos =>
        obtain rfl := eq_token hp hk' ht
        rw [if_pos hk', subst, if_pos rfl]
      case neg =>
        rw [if_neg hk', subst]
        split_ifs with h₁ h₂
        case pos =>
          subst h₁
          cases ip
          case none   => rfl
          case some a =>
            obtain hc | rfl := hip a rfl
            case inl => exact absurd (hp.forall_iff.mpr hc i ht) hk'
            case inr => rfl
        case pos =>
          subst h₂
          obtain hc | rfl := (hid (List.mem_of_getElem? ht)).2
          case inl => exact absurd (hd.forall_iff.mpr hc i ht) hk
          case inr => rfl
        case neg => rfl

theorem map_eq_iff {f : CString → CString} {g : Nat → CString → CString} {ts' : List CString}
    (hl : ts'.length = ts.length) (h : ∀ i t, ts[i]? = some t → ts'[i]? = some (g i t)) :
    ts' = ts.map f ↔ ∀ i t, ts[i]? = some t → g i t = f t := by
  constructor
  case mp  =>
    rintro rfl i t ht
    have := h i t ht
    rw [List.getElem?_map, ht] at this
    exact (Option.some.inj this).symm
  case mpr =>
    intro hg
    apply List.ext_getElem?
    intro i
    rw [List.getElem?_map]
    cases ht : ts[i]?
    case none   => exact List.getElem?_eq_none (hl ▸ List.getElem?_eq_none_iff.mp ht)
    case some t => rw [h i t ht, hg i t ht]; rfl

-- The command is given what its text stands for.
theorem fill_iff_replaceable (id : CString) (ip : Option CString) (str : CString) :
    (cmdFromStr str).fill (create id) ip = (arguments id ip str).map some ++ [none] ↔ Replaceable id ip str := by
  obtain ⟨args, ha, hf, hp, hd⟩ := cmdFromStr_spec str
  obtain ⟨ts', hs, hl, ht⟩ := fill_spec (create id) ip ha
  have hi : Function.Injective (List.map (some : CString → Option CString)) :=
    List.map_injective_iff.mpr (Option.some_injective _)
  rw [hs, List.append_cancel_right_eq, hi.eq_iff, arguments, Replaceable]
  cases hw : words isblank str
  case nil       => simp
  case cons t ts =>
    rw [hw, List.tail_cons] at hl ht hp hd
    have he := map_eq_iff (f := subst id ip) hl ht
    rw [List.map_cons, List.cons.injEq, hf t ts hw, he, forall_subst_iff hp hd]
    constructor
    case mp  => exact fun ⟨h, hip, hid⟩ => ⟨t, ts, rfl, h, hip, hid⟩
    case mpr =>
      rintro ⟨_, _, hc, h, hip, hid⟩
      obtain ⟨rfl, rfl⟩ := List.cons.inj hc
      exact ⟨h, hip, hid⟩

-- A second address stays as it is written.
theorem not_always_filled :
    ¬∀ id ip str, (cmdFromStr str).fill (create id) ip = (arguments id ip str).map some ++ [none] := by
  intro h
  have := h "banned".toList (some "192.0.2.7".toList) "/sbin/route add <IP> via <IP>".toList
  revert this
  decide

end Arguments

end F2b.Exec
