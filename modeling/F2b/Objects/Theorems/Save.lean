import F2b.Objects.Statefile
import Mathlib.Data.List.TakeDrop

-- What a save leaves in the state file when something of it fails.

namespace F2b.Statefile

section Definitions

structure Writes.Complete (writes : Writes) (list : List Ipaddr) : Prop where
  prints : ∀ i s, (pieces list)[i]? = some s → ∀ n ∈ writes.prints i, s.length ≤ n
  closes : ∀ n ∈ writes.closes, (print list).length ≤ n

-- After a save the file holds all of the new text if the save returns true, and all that it held before if not.
def Atomic (sf : Statefile) (list : List Ipaddr) (writes : Writes) (disk : Disk) : Prop :=
  (sf.saveBy list writes disk).2.2 sf.path =
  if (sf.saveBy list writes disk).1 then some (print list) else disk sf.path

instance {sf : Statefile} {list : List Ipaddr} {writes : Writes} {disk : Disk} :
    Decidable (sf.Atomic list writes disk) :=
  inferInstanceAs (Decidable (_ = _))

def Aside (sf : Statefile) : Prop :=
  CString.strlcpy (sf.path ++ ".new".toList) PATH_MAX ≠ sf.path

-- The file that is kept when there is nothing to write holds no more than the first line. What is written
-- arrives, or does not replace the file.
def Careful (sf : Statefile) (list : List Ipaddr) (writes : Writes) (disk : Disk) : Prop :=
  if list = [] then disk sf.path = some header
  else if writes.opens = false then True
  else if writes.renames = false then
    sf.Aside ∨ disk sf.path = some (keep writes.closes (arrived writes.prints 0 (pieces list)))
  else writes.Complete list

end Definitions

section Texts

theorem flatten_pieces (list : List Ipaddr) : (pieces list).flatten = print list := by
  rw [pieces, print, List.flatten_cons, List.flatMap]

theorem keep_prefix_self (n : Option Nat) (s : CString) : keep n s <+: s := by
  cases n
  case none   => exact List.prefix_refl s
  case some n => exact List.take_prefix ..

theorem length_keep_le (n : Option Nat) (s : CString) : (keep n s).length ≤ s.length :=
  (keep_prefix_self n s).length_le

theorem keep_eq_self_iff {n : Option Nat} {s : CString} : keep n s = s ↔ ∀ m ∈ n, s.length ≤ m := by
  cases n
  case none   => simp [keep]
  case some n =>
    have hk : keep (some n) s = s ↔ s.length ≤ n := List.take_eq_self_iff s
    simpa using hk

theorem length_arrived_le (prints : Nat → Option Nat) (i : Nat) (ss : List CString) :
    (arrived prints i ss).length ≤ ss.flatten.length := by
  induction ss generalizing i
  case nil          => exact Nat.le_refl _
  case cons s ss hi =>
    rw [arrived, List.flatten_cons, List.length_append, List.length_append]
    exact Nat.add_le_add (length_keep_le ..) (hi _)

theorem arrived_eq_iff {prints : Nat → Option Nat} {i : Nat} {ss : List CString} :
    arrived prints i ss = ss.flatten ↔ ∀ j s, ss[j]? = some s → keep (prints (i + j)) s = s := by
  induction ss generalizing i
  case nil          => simp [arrived]
  case cons s ss hi =>
    have hs : arrived prints i (s :: ss) = (s :: ss).flatten ↔
        keep (prints i) s = s ∧ arrived prints (i + 1) ss = ss.flatten := by
      rw [arrived, List.flatten_cons]
      constructor
      case mp  =>
        intro h
        have hl := congrArg List.length h
        have := length_keep_le (prints i) s
        have := length_arrived_le prints (i + 1) ss
        simp only [List.length_append] at hl
        exact List.append_inj h (by omega)
      case mpr => exact fun ⟨h, ht⟩ => by rw [h, ht]
    rw [hs, hi]
    constructor
    case mp  =>
      rintro ⟨h, ht⟩ (_ | j) s' hj
      case zero => exact Option.some.inj hj ▸ h
      case succ => simpa only [Nat.add_assoc, Nat.add_comm 1] using ht j s' hj
    case mpr =>
      intro h
      refine ⟨h 0 s rfl, fun j s' hj => ?_⟩
      have := h (j + 1) s' hj
      rwa [Nat.add_comm j 1, ← Nat.add_assoc] at this

theorem text_eq_iff {writes : Writes} {list : List Ipaddr} :
    keep writes.closes (arrived writes.prints 0 (pieces list)) = print list ↔ writes.Complete list := by
  have hl := length_arrived_le writes.prints 0 (pieces list)
  have hp : arrived writes.prints 0 (pieces list) = print list ↔
      ∀ i s, (pieces list)[i]? = some s → ∀ n ∈ writes.prints i, s.length ≤ n := by
    rw [← flatten_pieces, arrived_eq_iff]
    simp only [Nat.zero_add, keep_eq_self_iff]
  rw [flatten_pieces] at hl
  constructor
  case mp  =>
    intro h
    have hk := keep_prefix_self writes.closes (arrived writes.prints 0 (pieces list))
    rw [h] at hk
    have ha : arrived writes.prints 0 (pieces list) = print list := (hk.eq_of_length_le hl).symm
    rw [ha, keep_eq_self_iff] at h
    exact ⟨hp.mp ha, h⟩
  case mpr =>
    rintro ⟨h, hc⟩
    rw [hp.mpr h, keep_eq_self_iff]
    exact hc

end Texts

section Save

variable {list : List Ipaddr} {writes : Writes} {disk : Disk}

theorem atomic_iff_careful (sf : Statefile) (list : List Ipaddr) (writes : Writes) (disk : Disk) :
    sf.Atomic list writes disk ↔ sf.Careful list writes disk := by
  rw [Careful, Atomic, saveBy, Aside]
  generalize CString.strlcpy (sf.path ++ ".new".toList) PATH_MAX = path
  by_cases hl : list = []
  case pos => simp [hl, print]
  case neg =>
    simp only [if_neg hl]
    cases ho : writes.opens
    case false => simp
    case true  =>
      cases hr : writes.renames
      case true  => simp [text_eq_iff]
      case false =>
        by_cases hp : path = sf.path
        case pos => simp [hp, eq_comm]
        case neg => simp [hp, Function.update_of_ne (Ne.symm hp)]

-- Where only the end of the text is lost, this is `save`.
theorem saveBy_eq_save (sf : Statefile) (list : List Ipaddr) (fate : SaveFate) (disk : Disk) :
    sf.saveBy list ⟨fate.opens, fun _ => none, fate.written, fate.renames⟩ disk = sf.save list fate disk := by
  have ha : arrived (fun _ => none) 0 (pieces list) = print list := by
    rw [← flatten_pieces]
    exact arrived_eq_iff.mpr fun _ _ _ => rfl
  have hk : keep fate.written (print list) = fate.keep (print list) := by
    rw [SaveFate.keep]
    cases fate.written <;> rfl
  rw [saveBy, save, ha, hk]

end Save

section Example

def host (text : CString) (bannedAt : Int) : Ipaddr where
  type      := .inet
  text      := text
  banned    := true
  bancount  := 1
  lastseen  := bannedAt
  bannedAt  := bannedAt
  releaseAt := bannedAt + 3600
  binary    := (Inet.quad.pton .inet text).getD []
  history   := .flush

-- The second line does not fit the disk any more. The file is replaced all the same.
theorem not_atomic :
    ¬∀ (list : List Ipaddr) writes disk, Atomic ⟨"/var/lib/f2b/ssh.state".toList, false⟩ list writes disk := by
  intro h
  have := h [host "192.0.2.7".toList 1000, host "192.0.2.8".toList 2000]
    ⟨true, fun i => if i = 2 then some 4 else none, none, true⟩ fun _ => some (print [host "192.0.2.7".toList 1000])
  revert this
  decide

end Example

end F2b.Statefile
