import F2b.Objects.Matches
import F2b.Lib.Place

-- Host records (ipaddr.c).

namespace F2b

inductive Fault
  | assertFailed
  | overread
  deriving DecidableEq

def IPADDR_MAX : Nat := 48

inductive AddrFamily
  | inet
  | inet6
  deriving DecidableEq

-- `inet_pton`: the binary form of the texts it accepts. These are no longer than INET6_ADDRSTRLEN
-- allows, and made of hexadecimal digits, dots and colons.
structure Inet where
  pton       : AddrFamily → CString → Option (List UInt8)
  length_lt  : ∀ {type text binary}, pton type text = some binary → text.length < 46
  nonempty   : ∀ {type text binary}, pton type text = some binary → text ≠ []
  chars      : ∀ {type text binary}, pton type text = some binary →
    ∀ c ∈ text, c ∈ "0123456789abcdefABCDEF.:".toList

namespace Inet

-- `inet_pton` for dotted quads: the octets before the current one, and its value so far.
def quadLoop : CString → List Nat → Option Nat → Option (List UInt8)
  | [],     octets, some n => if octets.length = 3 then some ((octets ++ [n]).map .ofNat) else none
  | [],     _,      none   => none
  | c :: s, octets, n      =>
    if CString.isdigit c then
      let new := 10 * n.getD 0 + (c.toNat - '0'.toNat)
      if n = some 0 ∨ new > 255 then none else quadLoop s octets (some new)
    else match n with
    | some n => if c = '.' ∧ octets.length < 3 then quadLoop s (octets ++ [n]) none else none
    | none   => none

def quad : Inet where
  pton type text :=
    if type = .inet ∧ text.length < 16 ∧ text ≠ [] ∧
      text.all ("0123456789abcdefABCDEF.:".toList.contains ·) then quadLoop text [] none else none
  length_lt h := by
    split at h
    · exact Nat.lt_of_lt_of_le (And.left (And.right ‹_›)) (by decide)
    · cases h
  nonempty h := by
    split at h
    · exact And.left (And.right (And.right ‹_›))
    · cases h
  chars h := by
    split at h
    case isTrue hc => simpa using hc.2.2.2
    case isFalse   => cases h

def dual : Inet where
  pton type text :=
    if type = .inet6 ∧ text = "::1".toList then some (List.replicate 15 0 ++ [1]) else quad.pton type text
  length_lt h := by
    split at h
    case isTrue hc => rw [hc.2]; decide
    case isFalse   => exact quad.length_lt h
  nonempty h := by
    split at h
    case isTrue hc => rw [hc.2]; decide
    case isFalse   => exact quad.nonempty h
  chars h := by
    split at h
    case isTrue hc => rw [hc.2]; exact CString.forall_of_all (by decide)
    case isFalse   => exact quad.chars h

example : (quad.pton .inet "192.0.2.255".toList).isSome ∧ quad.pton .inet "192.0.2.256".toList = none :=
  by decide

end Inet

structure Ipaddr where
  type      : AddrFamily
  text      : CString
  banned    : Bool
  bancount  : Nat
  lastseen  : Int
  bannedAt  : Int
  releaseAt : Int
  binary    : List UInt8
  history   : Matches
  deriving DecidableEq

namespace Ipaddr

-- A text with a colon in it is taken for an IPv6 address.
def family (addr : CString) : AddrFamily :=
  if addr.strchr ':' = none then .inet else .inet6

variable (inet : Inet)

-- `none` is the NULL result.
def create (addr : CString) : Option Ipaddr :=
  (inet.pton (family addr) addr).map fun binary => {
    type      := family addr
    text      := addr.strlcpy IPADDR_MAX
    banned    := false
    bancount  := 0
    lastseen  := 0
    bannedAt  := 0
    releaseAt := 0
    binary    := binary
    history   := .flush
  }

-- The texts that `create` accepts: the valid addresses.
def Valid (addr : CString) : Prop :=
  (inet.pton (family addr) addr).isSome

instance (addr : CString) : Decidable (Valid inet addr) :=
  inferInstanceAs (Decidable (_ = true))

def IsA (type : AddrFamily) (addr : CString) : Prop :=
  family addr = type ∧ Valid inet addr

instance (type : AddrFamily) (addr : CString) : Decidable (IsA inet type addr) :=
  inferInstanceAs (Decidable (_ ∧ _))

variable {inet} {addr : CString} {a : Ipaddr}

namespace Valid

theorem length_lt (h : Valid inet addr) : addr.length < IPADDR_MAX :=
  have ⟨_, h⟩ := Option.isSome_iff_exists.mp h
  Nat.lt_of_lt_of_le (inet.length_lt h) (by decide)

theorem exists_create (h : Valid inet addr) : ∃ a, create inet addr = some a := by
  have ⟨_, h⟩ := Option.isSome_iff_exists.mp h
  exact ⟨_, by rw [create, h]; rfl⟩

end Valid

theorem family_eq_inet6_iff : family addr = .inet6 ↔ ':' ∈ addr := by
  rw [family, ← not_iff_not, ← CString.strchr_eq_none_iff]
  split <;> simp [*]

theorem family_eq_inet_iff : family addr = .inet ↔ ':' ∉ addr := by
  rw [← family_eq_inet6_iff]
  cases family addr <;> simp

namespace IsA

variable {type : AddrFamily}

theorem length_lt (h : IsA inet type addr) : addr.length < IPADDR_MAX :=
  h.2.length_lt

theorem not_mem (h : IsA inet type addr) {c : Char} (hc : c ∉ "0123456789abcdefABCDEF.:".toList) : c ∉ addr := by
  have ⟨_, hp⟩ := Option.isSome_iff_exists.mp h.2
  exact fun hm => hc (inet.chars hp c hm)

end IsA

theorem create_eq_none_iff : create inet addr = none ↔ ¬Valid inet addr := by
  simp [create, Valid]

theorem valid_of_create (h : create inet addr = some a) : Valid inet addr := by
  by_contra hv
  simp [create_eq_none_iff.mpr hv] at h

theorem create_eq (h : create inet addr = some a) :
    ∃ binary, inet.pton (family addr) addr = some binary ∧
    a = ⟨family addr, addr, false, 0, 0, 0, 0, binary, .flush⟩ := by
  have hl := (valid_of_create h).length_lt
  simp only [create, Option.map_eq_some_iff, CString.strlcpy_of_lt hl] at h
  have ⟨binary, hb, he⟩ := h
  exact ⟨binary, hb, he.symm⟩

theorem text_create (h : create inet addr = some a) : a.text = addr := by
  obtain ⟨_, _, rfl⟩ := create_eq h; rfl

theorem banned_create (h : create inet addr = some a) : a.banned = false := by
  obtain ⟨_, _, rfl⟩ := create_eq h; rfl

end Ipaddr

namespace Addrlist

def append (list : List Ipaddr) (ipaddr : Option Ipaddr) : Except Fault (Place Ipaddr) :=
  match ipaddr with
  | none   => .error .assertFailed
  | some a => .ok ⟨[], a, list⟩

def lookup (list : List Ipaddr) (addr : CString) : Option (Place Ipaddr) :=
  Place.find? (fun a => CString.strncmpEq a.text addr IPADDR_MAX) list

def texts (list : List Ipaddr) : List CString :=
  list.map (·.text)

variable {list : List Ipaddr} {addr : CString} {p : Place Ipaddr}

theorem mem_texts_iff : addr ∈ texts list ↔ ∃ a ∈ list, a.text = addr :=
  List.mem_map

theorem texts_set {a : Ipaddr} (h : a.text = p.here.text) : texts (p.set a).list = texts p.list :=
  Place.map_list_set h

theorem lookup_list (h : lookup list addr = some p) : p.list = list :=
  Place.find?_list h

theorem text_of_lookup (h : lookup list addr = some p) (hl : p.here.text.length < IPADDR_MAX) :
    p.here.text = addr :=
  have hq := Place.find?_here h
  CString.eq_of_strncmpEq hq hl

theorem lookup_text (h : lookup list addr = some p) (hl : ∀ a ∈ list, a.text.length < IPADDR_MAX) :
    p.here.text = addr :=
  text_of_lookup h <| hl _ (lookup_list h ▸ p.here_mem)

theorem text_ne_of_lookup (h : lookup list addr = none) {a : Ipaddr} (ha : a ∈ list) :
    a.text ≠ addr := by
  rintro rfl
  exact Place.find?_eq_none_iff.mp h a ha (CString.strncmpEq_self ..)

end Addrlist
end F2b
