import F2b.Jail.Basic

-- The `match` functions of the filter modules (filters/preg.c, filters/pcre.c). The regular
-- expression engines are parameters.

namespace F2b.Filters

structure Regexp where
  pattern : CString
  ftag    : UInt32
  score   : Int
  icase   : Bool
  deriving DecidableEq

-- `regexec` gives the bounds of the first group, which are -1 if the group takes no part in the
-- match.
def preg (regexec : CString → Bool → CString → Option (Int × Int)) (bufSize : Nat) : List Regexp → Filter
  | [],      _    => .ok none
  | r :: rs, line =>
    match regexec r.pattern r.icase line with
    | none          => preg regexec bufSize rs line
    | some (so, eo) =>
      let matchLen := (eo - so).toNat
      if bufSize > matchLen then
        .ok (some ⟨r.ftag, (line.drop so.toNat).take matchLen, r.score⟩)
      else
        .error .assertFailed

-- `exec` gives the text of the group `host` if there is a match with this group. A text that does
-- not fit the buffer is passed over.
def pcre (exec : CString → Bool → CString → Option CString) (bufSize : Nat) : List Regexp → Filter
  | [],      _    => .ok none
  | r :: rs, line =>
    match exec r.pattern r.icase line with
    | none      => pcre exec bufSize rs line
    | some text =>
      if text.length < bufSize then .ok (some ⟨r.ftag, text, r.score⟩)
      else pcre exec bufSize rs line

variable {bufSize : Nat} {rs : List Regexp} {line : CString}

-- What a filter leaves in the match buffer fits it. `preg` sees to this by an assertion, so that it may
-- end the program, and `pcre` never does.
theorem preg_fits {regexec : CString → Bool → CString → Option (Int × Int)} {hit : Hit}
    (h : preg regexec bufSize rs line = .ok (some hit)) : hit.text.length < bufSize := by
  induction rs
  case nil          => cases h
  case cons r rs hi =>
    cases hr : regexec r.pattern r.icase line
    case none       => exact hi (by simpa only [preg, hr] using h)
    case some bound =>
      obtain ⟨so, eo⟩ := bound
      simp only [preg, hr] at h
      split at h
      case isTrue hl  =>
        obtain rfl := Option.some.inj (Except.ok.inj h)
        exact Nat.lt_of_le_of_lt (List.length_take_le ..) hl
      case isFalse => cases h

theorem pcre_fits (exec : CString → Bool → CString → Option CString) (bufSize : Nat) (rs : List Regexp)
    (line : CString) :
    ∃ hit, pcre exec bufSize rs line = .ok hit ∧ ∀ h ∈ hit, h.text.length < bufSize := by
  induction rs
  case nil          => exact ⟨none, rfl, by simp⟩
  case cons r rs hi =>
    cases hr : exec r.pattern r.icase line
    case none      => simpa only [pcre, hr] using hi
    case some text =>
      by_cases hl : text.length < bufSize
      case pos => exact ⟨some ⟨r.ftag, text, r.score⟩, by simp [pcre, hr, hl], by simpa using hl⟩
      case neg => simpa only [pcre, hr, if_neg hl] using hi

end F2b.Filters
