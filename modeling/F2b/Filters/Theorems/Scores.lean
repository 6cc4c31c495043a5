import F2b.Filters.Theorems.Reload
import F2b.Lib.Decimal
import F2b.Lib.Overwrite

-- The scores of the patterns of a filter.

namespace F2b.Filters

section Definitions

def scoreOption (p : Config.Param) : Option CString :=
  if p.name = "defscore".toList then some p.value else none

def scoreLine : Line → Option CString
  | .option p  => scoreOption p
  | .pattern _ => none

-- The score in effect after some lines: the last one that is set in them, else in the section.
def scoreAt (sec : Config.Section) (before : List Line) : Int :=
  ((before.filterMap scoreLine).getLast?.or (sec.param.filterMap scoreOption).getLast?).elim
    MATCH_DEFSCORE CString.number

variable {σ : Type} (m : Engine σ)

-- The patterns that are loaded, each with the lines before it.
def loadsAt : List Line → σ → List Line → List (List Line × Regexp)
  | _,      _, []      => []
  | before, o, l :: ls => (loadLine m o l).toList.map (before, ·) ++ loadsAt (before ++ [l]) (setOpts m o l) ls

def loadedAt (sec : Config.Section) (text : CString) : List (List Line × Regexp) :=
  loadsAt m [] (firstOpts m sec) (linesOf text)

-- Each pattern has the score in effect at its line, and so has what is reported of the lines it matches.
structure Scored (lib : Library) (sec : Config.Section) (text : CString) (cfg : Cfg lib.Opts) : Prop where
  patterns : cfg.regexps = (loadedAt lib.engine sec text).map Prod.snd
  score    : ∀ e ∈ loadedAt lib.engine sec text, e.2.score = scoreAt sec e.1
  reported : ∀ bufSize line hit, lib.filter bufSize cfg.regexps line = .ok (some hit) →
    ∃ e ∈ loadedAt lib.engine sec text,
      lib.filter bufSize [e.2] line = .ok (some hit) ∧ hit.score = scoreAt sec e.1

-- A score that is set in the file fits a `short`, and one that is only set in the section is the default.
def ScoreKept (sec : Config.Section) (before : List Line) : Prop :=
  match (before.filterMap scoreLine).getLast? with
  | some v => -2 ^ 15 ≤ v.number ∧ v.number < 2 ^ 15
  | none   => ∀ v, (sec.param.filterMap scoreOption).getLast? = some v → v.number = MATCH_DEFSCORE

end Definitions

section Trace

variable {σ : Type} {m : Engine σ} {o : σ} {before ls : List Line}

theorem loadsAt_snd : (loadsAt m before o ls).map Prod.snd = loads m o ls := by
  induction ls generalizing before o
  case nil          => rfl
  case cons l ls hi =>
    rw [loadsAt, loads, List.map_append, hi, List.map_map]
    exact congrArg (· ++ _) (List.map_id _)

theorem score_of_mem_loadsAt {e : List Line × Regexp} (o₀ : σ) (ho : o = optsAfter m o₀ before)
    (h : e ∈ loadsAt m before o ls) : e.2.score = m.defscore (optsAfter m o₀ e.1) := by
  induction ls generalizing before o
  case nil          => cases h
  case cons l ls hi =>
    rw [loadsAt, List.mem_append, List.mem_map] at h
    obtain ⟨r, hr, rfl⟩ | h := h
    case inr => exact hi (by rw [ho, optsAfter, optsAfter, List.foldl_append]; rfl) h
    case inl =>
      cases l
      case option    => cases hr
      case pattern t =>
        rw [← ho, (regexp_eq_some_iff.mp (Option.mem_toList.mp hr)).2]

end Trace

section Match

variable {lib : Library} {bufSize : Nat} {rs : List Regexp} {line : CString} {hit : Hit}

theorem filter_cons (lib : Library) (bufSize : Nat) (r : Regexp) (rs : List Regexp) (line : CString) :
    lib.filter bufSize (r :: rs) line = lib.filter bufSize rs line ∨
    lib.filter bufSize (r :: rs) line = lib.filter bufSize [r] line := by
  cases lib
  case preg regcomp regexec =>
    cases hr : regexec r.pattern r.icase line
    case none       => exact .inl (by simp only [Library.filter, preg, hr])
    case some bound => exact .inr (by simp only [Library.filter, preg, hr])
  case pcre jit compile study exec =>
    cases hr : exec r.pattern r.icase line
    case none      => exact .inl (by simp only [Library.filter, pcre, hr])
    case some text =>
      by_cases hl : text.length < bufSize
      case pos => exact .inr (by simp only [Library.filter, pcre, hr, hl, if_true])
      case neg => exact .inl (by simp only [Library.filter, pcre, hr, hl, if_false])

theorem exists_of_filter (h : lib.filter bufSize rs line = .ok (some hit)) :
    ∃ r ∈ rs, lib.filter bufSize [r] line = .ok (some hit) := by
  induction rs
  case nil          => rw [filter_nil] at h; cases h
  case cons r rs hi =>
    obtain hc | hc := filter_cons lib bufSize r rs line
    case inl =>
      have ⟨r', hm, hr⟩ := hi (hc ▸ h)
      exact ⟨r', List.mem_cons_of_mem _ hm, hr⟩
    case inr => exact ⟨r, List.mem_cons_self, hc ▸ h⟩

theorem tag_score_of_filter {r : Regexp} (h : lib.filter bufSize [r] line = .ok (some hit)) :
    hit.ftag = r.ftag ∧ hit.score = r.score := by
  cases lib
  case preg regcomp regexec =>
    rw [Library.filter, preg] at h
    cases hr : regexec r.pattern r.icase line
    case none       => rw [hr] at h; cases h
    case some bound =>
      rw [hr] at h
      simp only at h
      split at h
      case isTrue  => simp [← Option.some.inj (Except.ok.inj h)]
      case isFalse => cases h
  case pcre jit compile study exec =>
    rw [Library.filter, pcre] at h
    cases hr : exec r.pattern r.icase line
    case none      => rw [hr] at h; cases h
    case some text =>
      rw [hr] at h
      simp only at h
      split at h
      case isTrue  => simp [← Option.some.inj (Except.ok.inj h)]
      case isFalse => cases h

end Match

theorem Library.defscore_config (lib : Library) (o : lib.Opts) (k v : CString) :
    lib.engine.defscore (lib.engine.config o k v).2 =
    if k = "defscore".toList then toShort v.atoi else lib.engine.defscore o := by
  cases lib
  case preg => exact Preg.defscore_config o k v
  case pcre => exact Pcre.defscore_config _ o k v

def defscoreField (lib : Library) : Overwrite.Field (setOpts lib.engine) Int where
  get     := lib.engine.defscore
  write l := (scoreLine l).map fun v => toShort v.atoi
  law o
    | .pattern _ => rfl
    | .option p  => by
      rw [setOpts, lib.defscore_config, scoreLine, scoreOption]
      split <;> rfl

theorem defscore_optsAfter (lib : Library) (sec : Config.Section) (before : List Line) :
    lib.engine.defscore (optsAfter lib.engine (firstOpts lib.engine sec) before) =
    (before.filterMap scoreLine).getLast?.elim MATCH_DEFSCORE fun v => toShort v.atoi := by
  have hf := (defscoreField lib).get_foldl (firstOpts lib.engine sec) before
  have hl : (defscoreField lib).lastWrite before =
      (before.filterMap scoreLine).getLast?.map fun v => toShort v.atoi := by
    rw [← List.getLast?_map, List.map_filterMap]
    rfl
  have h0 : (defscoreField lib).get (firstOpts lib.engine sec) = MATCH_DEFSCORE := lib.lawful.defscore_reset _
  rw [hl, h0] at hf
  refine Eq.trans hf ?_
  cases (before.filterMap scoreLine).getLast? <;> rfl

theorem scoreKept_iff (sec : Config.Section) (before : List Line) :
    ((before.filterMap scoreLine).getLast?.elim MATCH_DEFSCORE fun v => toShort v.atoi) = scoreAt sec before ↔
    ScoreKept sec before := by
  rw [scoreAt, ScoreKept]
  cases (before.filterMap scoreLine).getLast?
  case some v => exact CString.toShort_atoi_eq_iff v
  case none   => cases (sec.param.filterMap scoreOption).getLast? <;> simp [eq_comm]

-- The patterns of a filter have the scores in effect if and only if, for each of them, either the file
-- sets a score before it that fits, or the section sets none but the default.
theorem scored_iff (lib : Library) (sec : Config.Section) (text : CString) {cfg : Cfg lib.Opts}
    (h : init lib.engine sec (some text) = some cfg) :
    Scored lib sec text cfg ↔ ∀ e ∈ loadedAt lib.engine sec text, ScoreKept sec e.1 := by
  have ⟨text', ht, _, hc⟩ := init_eq_some_iff.mp h
  obtain rfl := Option.some.inj ht
  have hp : cfg.regexps = (loadedAt lib.engine sec text).map Prod.snd := by
    rw [hc, loadedAt, loadsAt_snd]
    rfl
  have hs : ∀ e ∈ loadedAt lib.engine sec text, e.2.score = scoreAt sec e.1 ↔ ScoreKept sec e.1 := fun e he => by
    rw [score_of_mem_loadsAt (firstOpts lib.engine sec) rfl he, defscore_optsAfter, scoreKept_iff]
  constructor
  case mp  => exact fun h e he => (hs e he).mp (h.score e he)
  case mpr =>
    intro hk
    refine ⟨hp, fun e he => (hs e he).mpr (hk e he), fun bufSize line hit hf => ?_⟩
    have ⟨r, hr, hf⟩ := exists_of_filter (hp ▸ hf)
    obtain ⟨e, he, rfl⟩ := List.mem_map.mp hr
    exact ⟨e, he, hf, ((tag_score_of_filter hf).2).trans ((hs e he).mpr (hk e he))⟩

def scoreSection : Config.Section :=
  ⟨"preg".toList, .filter, [⟨"defscore".toList, "30".toList⟩]⟩

def scoreText : CString :=
  "from <HOST>\n".toList

def scoreFilter : Cfg Preg where
  opts    := ⟨false, MATCH_DEFSCORE⟩
  regexps := [⟨"from <HOST>".toList, fnv32aStr "from <HOST>".toList FNV1_32A_INIT, MATCH_DEFSCORE, false⟩]
  ready   := true

theorem init_score : init (pregEngine fun _ _ => true) scoreSection (some scoreText) = some scoreFilter :=
  rfl

theorem scored_iff_score :
    Scored (.preg (fun _ _ => true) fun _ _ _ => none) scoreSection scoreText scoreFilter ↔
    ∀ e ∈ loadedAt (pregEngine fun _ _ => true) scoreSection scoreText, ScoreKept scoreSection e.1 :=
  scored_iff (.preg (fun _ _ => true) fun _ _ _ => none) scoreSection scoreText init_score

theorem not_always_scored :
    ¬∀ (lib : Library) sec text (cfg : Cfg lib.Opts), init lib.engine sec (some text) = some cfg →
      Scored lib sec text cfg := by
  intro h
  have hs := (h (.preg (fun _ _ => true) fun _ _ _ => none) _ _ _ init_score).score
  have := hs ([], ⟨"from <HOST>".toList, fnv32aStr "from <HOST>".toList FNV1_32A_INIT, MATCH_DEFSCORE, false⟩)
    List.mem_cons_self
  revert this
  decide

end F2b.Filters
