import F2b.Lib.CString

-- Buffers of fixed size (buf.c).

namespace F2b

structure Buf where
  data : List Char
  size : Nat
  deriving DecidableEq

namespace Buf

def alloc (size : Nat) : Buf where
  data := []
  size := size

-- What does not fit is cut off.
def append (buf : Buf) (str : CString) : Buf :=
  { buf with data := buf.data ++ str.take (buf.size - buf.data.length) }

def splice (buf : Buf) (len : Nat) : Buf :=
  { buf with data := buf.data.drop len }

-- The text before the first newline and what is left, none without a newline. The search ends at a
-- NUL.
def extract (buf : Buf) : Option (CString × Buf) :=
  match (CString.ofBuffer buf.data).strchr '\n' with
  | none     => none
  | some len => some (buf.data.take len, buf.splice (len + 1))

variable {buf : Buf} {str : CString}

theorem extract_lt {line : CString} {rest : Buf} (h : buf.extract = some (line, rest)) :
    rest.data.length < buf.data.length := by
  simp only [extract] at h
  split at h
  case h_1 => cases h
  case h_2 len hl =>
    obtain ⟨_, rfl⟩ := Prod.mk.inj (Option.some.inj h)
    have ⟨hlen, _⟩ := List.findIdx?_eq_some_iff_getElem.mp hl
    have := (List.takeWhile_sublist (· ≠ CString.nul) (l := buf.data)).length_le
    simp only [CString.ofBuffer] at hlen
    simp only [splice, List.length_drop]
    omega

theorem extract_eq (h : CString.nul ∉ buf.data) :
    ('\n' ∉ buf.data ∧ buf.extract = none) ∨
    ∃ line rest, '\n' ∉ line ∧ buf.data = line ++ '\n' :: rest ∧
      buf.extract = some (line, { buf with data := rest }) := by
  simp only [extract, CString.ofBuffer_eq_self h, CString.strchr]
  cases hf : buf.data.findIdx? (· == '\n')
  case none     =>
    have := List.findIdx?_eq_none_iff.mp hf
    exact .inl ⟨fun hm => by simpa using this _ hm, rfl⟩
  case some len =>
    obtain ⟨hl, hn, hb⟩ := List.findIdx?_eq_some_iff_getElem.mp hf
    have hd : buf.data = buf.data.take len ++ '\n' :: buf.data.drop (len + 1) := by
      have hn : buf.data[len] = '\n' := by simpa using hn
      rw [← hn, ← List.drop_eq_getElem_cons hl, List.take_append_drop]
    refine .inr ⟨_, _, fun hm => ?_, hd, rfl⟩
    obtain ⟨i, hi, he⟩ := List.mem_iff_getElem.mp hm
    simp only [List.length_take] at hi
    have := hb i (by omega)
    simp [List.getElem_take] at he
    simp [he] at this

theorem append_append (buf : Buf) (str₁ str₂ : CString) :
    (buf.append str₁).append str₂ = buf.append (str₁ ++ str₂) := by
  have hr (d n : Nat) : buf.size - (d + min (buf.size - d) n) = buf.size - d - n := by omega
  simp only [append, List.take_append, List.append_assoc, List.length_append, List.length_take, hr]

end Buf
end F2b
