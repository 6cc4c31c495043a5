import F2b.Lib.Registry
import F2b.Objects.ConfigFile

-- What reading a line does to the sections of a config.

namespace F2b.Config

namespace Section

abbrev Id := SectionType × CString

def id (sec : Section) : Id :=
  (sec.type, sec.name)

end Section

open Section (Id)

def single : SectionType → Bool
  | .main | .csocket | .defaults => true
  | _                            => false

def find (c : Config) (id : Id) : Option Section :=
  Registry.find Section.name (c.sections id.1) id.2

def serial (c : Config) (id : Id) : Option Nat :=
  Registry.serial Section.name (c.sections id.1) id.2

def ref (c : Config) (id : Id) : Option Ref :=
  (c.serial id).map (⟨id.1, ·⟩)

def Fits (secs : List Section) : SectionType → Prop
  | .unknown => secs = []
  | t        => single t → secs.length ≤ 1

-- What `f2b_config_section_create` can make.
structure Fresh (sec : Section) : Prop where
  known    : sec.type ≠ .unknown
  nameless : single sec.type → sec.name = []
  param    : sec.param = []

-- A config in which each section stands where its type is.
structure Valid (c : Config) : Prop where
  type     : ∀ t, ∀ sec ∈ c.sections t, sec.type = t
  nameless : ∀ t, single t → ∀ sec ∈ c.sections t, sec.name = []

variable {c : Config} {sec : Section} {secs : List Section} {t t' : SectionType} {id id' : Id} {r : Ref}
variable {f : Section → Section}

theorem valid_empty : Valid empty :=
  ⟨fun t => by cases t <;> exact List.forall_mem_nil _, fun t _ => by cases t <;> exact List.forall_mem_nil _⟩

theorem fits_sections (c : Config) (t : SectionType) : Fits (c.sections t) t := by
  cases t
  case unknown                   => rfl
  case main | csocket | defaults => exact fun _ => Option.length_toList_le
  all_goals exact fun h => absurd h (by decide)

theorem fits_modify {n : Nat} (h : Fits secs t) : Fits (secs.modify n f) t := by
  cases t
  case unknown => exact (show secs = [] from h) ▸ List.modify_nil ..
  all_goals exact fun hs => by simpa using h hs

theorem toList_head? {α : Type} {l : List α} (h : l.length ≤ 1) : l.head?.toList = l := by
  obtain _ | ⟨_, _ | _⟩ := l
  case nil          => rfl
  case cons.nil     => rfl
  case cons.cons    => simp at h

theorem sections_setSections (h : Fits secs t) :
    (c.setSections secs t).sections t' = if t' = t then secs else c.sections t' := by
  cases t
  case unknown                   => cases t' <;> simp [setSections, sections, show secs = [] from h]
  case main | csocket | defaults => cases t' <;> simp [setSections, sections, toList_head? (h rfl)]
  all_goals cases t' <;> rfl

theorem sections_modify :
    (c.modify r f).sections t =
    if t = r.type then (c.sections t).modify ((c.sections t).length - 1 - r.serial) f else c.sections t := by
  rw [modify, sections_setSections (fits_modify (fits_sections c r.type))]
  split
  case isTrue h  => rw [h]
  case isFalse h => rfl

theorem sectionAppend_old {n : Nat} (h : c.serial sec.id = some n) :
    c.sectionAppend sec = (c, ⟨sec.type, n⟩) := by
  obtain ⟨i, hi, rfl⟩ := Option.map_eq_some_iff.mp h
  replace hi : (c.sections sec.type).findIdx? (·.name = sec.name) = some i := hi
  simp only [sectionAppend, hi]
  rfl

theorem sectionAppend_new (h : c.serial sec.id = none) :
    c.sectionAppend sec = (c.setSections (sec :: c.sections sec.type) sec.type,
      ⟨sec.type, (c.sections sec.type).length⟩) := by
  replace h : (c.sections sec.type).findIdx? (·.name = sec.name) = none := Option.map_eq_none_iff.mp h
  simp only [sectionAppend, h]

theorem ref_inj (h : c.ref id = some r) (h' : c.ref id' = some r) : id = id' := by
  obtain ⟨n, hn, rfl⟩ := Option.map_eq_some_iff.mp h
  obtain ⟨n', hn', he⟩ := Option.map_eq_some_iff.mp h'
  obtain ⟨t, name⟩ := id
  obtain ⟨t', name'⟩ := id'
  obtain ⟨rfl, rfl⟩ := Ref.mk.inj he
  exact Prod.ext rfl (Registry.serial_inj hn hn')

theorem fits_cons (hv : Valid c) (hf : Fresh sec) (h : c.serial sec.id = none) :
    Fits (sec :: c.sections sec.type) sec.type := by
  have hn : single sec.type → c.sections sec.type = [] := fun hs => by
    refine List.eq_nil_iff_forall_not_mem.mpr fun s hs' => ?_
    exact Registry.serial_eq_none_iff.mp h s hs' ((hv.nameless _ hs s hs').trans (hf.nameless hs).symm)
  have hk := hf.known
  generalize sec.type = t at hn hk
  cases t
  case unknown => contradiction
  all_goals exact fun hs => by simp [hn hs]

theorem sections_append (hv : Valid c) (hf : Fresh sec) :
    (c.sectionAppend sec).1.sections t =
    if t = sec.type ∧ c.serial sec.id = none then sec :: c.sections t else c.sections t := by
  cases hs : c.serial sec.id
  case some n => simp [sectionAppend_old hs]
  case none   =>
    rw [sectionAppend_new hs, sections_setSections (fits_cons hv hf hs)]
    by_cases ht : t = sec.type <;> simp [ht]

theorem find_append (hv : Valid c) (hf : Fresh sec) :
    (c.sectionAppend sec).1.find id = if id = sec.id then (c.find id).or (some sec) else c.find id := by
  obtain ⟨t, name⟩ := id
  have hn : c.serial sec.id = none ↔ c.find sec.id = none := by
    rw [serial, Registry.serial_eq_none_iff, find, Registry.find_eq_none_iff]
  simp only [find, sections_append hv hf]
  by_cases hi : (t, name) = sec.id
  case pos =>
    obtain ⟨rfl, rfl⟩ := Prod.mk.inj hi
    rw [if_pos hi]
    by_cases hs : c.serial sec.id = none
    case pos =>
      have hs' : Registry.find Section.name (c.sections sec.type) sec.name = none := hn.mp hs
      rw [if_pos ⟨rfl, hs⟩, Registry.find_cons, if_pos rfl, hs']
      rfl
    case neg =>
      have ⟨s, hs'⟩ := Option.ne_none_iff_exists'.mp fun h => hs (hn.mpr h)
      replace hs' : Registry.find Section.name (c.sections sec.type) sec.name = some s := hs'
      rw [if_neg (fun h => hs h.2), hs']
      rfl
  case neg =>
    rw [if_neg hi]
    split
    case isTrue h  =>
      obtain ⟨rfl, _⟩ := h
      rw [Registry.find_cons, if_neg fun he => hi (Prod.ext rfl he.symm)]
    case isFalse h => rfl

theorem ref_append (hv : Valid c) (hf : Fresh sec) :
    (c.sectionAppend sec).1.ref sec.id = some (c.sectionAppend sec).2 := by
  cases hs : c.serial sec.id
  case some n => rw [sectionAppend_old hs, ref, hs]; rfl
  case none   =>
    have hn : (c.sectionAppend sec).1.serial sec.id = some (c.sections sec.type).length := by
      rw [serial, sections_append hv hf, if_pos ⟨rfl, hs⟩]
      exact Registry.serial_cons_self
    rw [ref, hn, sectionAppend_new hs]
    rfl

theorem ref_append_of_ref (hv : Valid c) (hf : Fresh sec) (h : c.ref id = some r) :
    (c.sectionAppend sec).1.ref id = some r := by
  obtain ⟨n, hn, rfl⟩ := Option.map_eq_some_iff.mp h
  rw [ref, serial, sections_append hv hf]
  split
  case isTrue hs  =>
    obtain ⟨ht, hs⟩ := hs
    rw [Registry.serial_cons hn (by rw [ht]; exact hs)]
    rfl
  case isFalse    => exact h

theorem valid_append (hv : Valid c) (hf : Fresh sec) : Valid (c.sectionAppend sec).1 := by
  refine ⟨fun t s hs => ?type, fun t ht s hs => ?nameless⟩ <;>
    rw [sections_append hv hf] at hs <;> split at hs
  case type.isTrue h =>
    obtain rfl | hs := List.mem_cons.mp hs
    case inl => exact h.1.symm
    case inr => exact hv.type t s hs
  case type.isFalse => exact hv.type t s hs
  case nameless.isTrue h =>
    obtain rfl | hs := List.mem_cons.mp hs
    case inl => exact hf.nameless (h.1 ▸ ht)
    case inr => exact hv.nameless t ht s hs
  case nameless.isFalse => exact hv.nameless t ht s hs

section Modify

variable (hf : ∀ s : Section, (f s).id = s.id)
include hf

theorem ref_modify : (c.modify r f).ref id = c.ref id := by
  have hn : ∀ s : Section, (f s).name = s.name := fun s => congrArg Prod.snd (hf s)
  have hm : ((c.modify r f).sections id.1).map Section.name = (c.sections id.1).map Section.name := by
    rw [sections_modify]
    split
    case isTrue  => exact Registry.map_key_modify hn _
    case isFalse => rfl
  rw [ref, ref, serial, serial, Registry.serial_congr hm]

theorem find_modify (hr : c.ref id = some r) :
    (c.modify r f).find id' = if id' = id then (c.find id).map f else c.find id' := by
  obtain ⟨n, hn, rfl⟩ := Option.map_eq_some_iff.mp hr
  have hf : ∀ s : Section, (f s).name = s.name := fun s => congrArg Prod.snd (hf s)
  obtain ⟨t, name⟩ := id
  obtain ⟨t', name'⟩ := id'
  simp only [find, sections_modify]
  by_cases ht : t' = t
  case pos =>
    subst ht
    rw [if_pos rfl, Registry.find_modify hn hf]
    simp
  case neg => simp [ht]

theorem valid_modify (hv : Valid c) : Valid (c.modify r f) := by
  have hm : ∀ t, ((c.modify r f).sections t).map Section.id = (c.sections t).map Section.id := fun t => by
    rw [sections_modify]
    split
    case isTrue  => exact Registry.map_key_modify hf _
    case isFalse => rfl
  have hs : ∀ t, ∀ s ∈ (c.modify r f).sections t, ∃ s' ∈ c.sections t, s'.id = s.id := fun t s hs =>
    List.mem_map.mp (hm t ▸ List.mem_map_of_mem hs)
  refine ⟨fun t s h => ?type, fun t ht s h => ?nameless⟩ <;> obtain ⟨s', h', he⟩ := hs t s h
  case type     => exact (congrArg Prod.fst he).symm.trans (hv.type t s' h')
  case nameless => exact (congrArg Prod.snd he).symm.trans (hv.nameless t ht s' h')

end Modify

theorem fresh_of_sectionOf {line : CString} (h : sectionOf line = some sec) : Fresh sec := by
  simp only [sectionOf] at h
  split at h
  case h_1 => cases h
  case h_2 =>
    repeat' split at h
    all_goals cases h
    all_goals constructor <;> simp [single]

theorem fresh_of_classify {line : CString} (h : classify line = some (.header (some sec))) : Fresh sec := by
  simp only [classify] at h
  cases ht : strip line <;> simp only [ht, itemOf] at h
  case nil        => cases h
  case cons b s =>
    split_ifs at h
    case pos => exact fresh_of_sectionOf (Item.header.inj (Option.some.inj h))
    case neg => simp at h

namespace Item

def next (cur : Option Id) : Item → Option Id
  | header sec => sec.map Section.id
  | pair _     => cur

def Fresh : Item → Prop
  | header sec => ∀ s ∈ sec, Config.Fresh s
  | pair _     => True

end Item

theorem item_fresh {line : CString} {item : Item} (h : classify line = some item) : item.Fresh := by
  cases item
  case header sec =>
    rintro s rfl
    exact fresh_of_classify h
  case pair => trivial

namespace Loader

-- The current section by its type and name.
structure Good (st : Loader) (cur : Option Id) : Prop where
  valid   : Valid st.config
  current : Option.Rel (fun r id => st.config.ref id = some r) st.current cur

variable {st : Loader} {cur : Option Id} {item : Item}

theorem good_none (hv : Valid c) : Good ⟨c, none⟩ none :=
  ⟨hv, .none⟩

def addParam (param : Param) (sec : Section) : Section :=
  { sec with param := paramAppend sec.param param (replaces sec.type) }

theorem id_addParam (param : Param) (sec : Section) : (addParam param sec).id = sec.id :=
  rfl

theorem act_pair_some {param : Param} (h : st.current = some r) :
    st.act (.pair param) = { st with config := st.config.modify r (addParam param) } := by
  simp only [act, h]
  rfl

theorem act_pair_none {param : Param} (h : st.current = none) : st.act (.pair param) = st := by
  simp only [act, h]

theorem good_act (hg : Good st cur) (hi : item.Fresh) : Good (st.act item) (item.next cur) := by
  have ⟨hv, hc⟩ := hg
  cases item
  case header sec =>
    cases sec
    case none     => exact ⟨hv, .none⟩
    case some sec =>
      have hf := hi sec rfl
      exact ⟨valid_append hv hf, .some (ref_append hv hf)⟩
  case pair param =>
    cases hs : st.current
    case none   => rwa [act_pair_none hs]
    case some r =>
      rw [hs] at hc
      cases hc
      case some id hr =>
        rw [act_pair_some hs]
        refine ⟨valid_modify (id_addParam param) hv, ?_⟩
        rw [hs]
        exact .some ((ref_modify (id_addParam param)).trans hr)

theorem ref_act (hg : Good st cur) (hi : item.Fresh) (h : st.config.ref id = some r) :
    (st.act item).config.ref id = some r := by
  cases item
  case header sec =>
    cases sec
    case none     => exact h
    case some sec => exact ref_append_of_ref hg.valid (hi sec rfl) h
  case pair param =>
    cases hs : st.current
    case none   => rwa [act_pair_none hs]
    case some r =>
      rw [act_pair_some hs]
      exact (ref_modify (id_addParam param)).trans h

theorem find_act (hg : Good st cur) (hi : item.Fresh) :
    (st.act item).config.find id =
    match item with
    | .header none       => st.config.find id
    | .header (some sec) => if id = sec.id then (st.config.find id).or (some sec) else st.config.find id
    | .pair param        =>
      if some id = cur then (st.config.find id).map (addParam param) else st.config.find id := by
  cases item
  case header sec =>
    cases sec
    case none     => rfl
    case some sec => exact find_append hg.valid (hi sec rfl)
  case pair param =>
    have hc := hg.current
    cases hs : st.current
    case none   =>
      rw [hs] at hc
      cases hc
      case none => simp [act_pair_none hs]
    case some r =>
      rw [hs] at hc
      cases hc
      case some id' hr =>
        rw [act_pair_some hs, Config.find_modify (id_addParam param) hr]
        by_cases he : id = id' <;> simp [he]

-- Several files, one after another: `none` stands for the next one that is opened.
def step (st : Loader) : Option CString → Loader
  | none      => { st with current := none }
  | some line => st.read line

-- The section that is the current one after a line or the start of a file.
def stepId (cur : Option Id) : Option CString → Option Id
  | none      => none
  | some line => (classify line).elim cur (Item.next cur)

theorem good_step (hg : Good st cur) (e : Option CString) : Good (st.step e) (stepId cur e) := by
  cases e
  case none      => exact ⟨hg.valid, .none⟩
  case some line =>
    cases hc : classify line
    case none      => simpa [step, stepId, read, hc] using hg
    case some item => simpa [step, stepId, read, hc] using good_act hg (item_fresh hc)

theorem ref_step (hg : Good st cur) (e : Option CString) (h : st.config.ref id = some r) :
    (st.step e).config.ref id = some r := by
  cases e
  case none      => exact h
  case some line =>
    cases hc : classify line
    case none      => simpa [step, read, hc] using h
    case some item => simpa [step, read, hc] using ref_act hg (item_fresh hc) h

theorem good_steps (hg : Good st cur) (es : List (Option CString)) :
    Good (es.foldl step st) (es.foldl stepId cur) := by
  induction es generalizing st cur
  case nil          => exact hg
  case cons e es hi => exact hi (good_step hg e)

theorem ref_steps (hg : Good st cur) (es : List (Option CString)) (h : st.config.ref id = some r) :
    (es.foldl step st).config.ref id = some r := by
  induction es generalizing st cur
  case nil          => exact h
  case cons e es hi => exact hi (good_step hg e) (ref_step hg e h)

end Loader

def events (texts : List CString) : List (Option CString) :=
  texts.flatMap fun text => none :: (CString.fgets CONFIG_LINE_MAX text).map some

theorem foldl_loadText (texts : List CString) (st : Loader) :
    texts.foldl loadText st.config = ((events texts).foldl Loader.step st).config := by
  induction texts generalizing st
  case nil                => rfl
  case cons text texts hi =>
    have hs : ∀ (lines : List CString) (st : Loader),
        (lines.map some).foldl Loader.step st = lines.foldl Loader.read st := fun lines st => by
      rw [List.foldl_map]
      rfl
    have he : events (text :: texts) =
        none :: (CString.fgets CONFIG_LINE_MAX text).map some ++ events texts := List.flatMap_cons
    rw [List.foldl_cons, loadText, hi, he, List.foldl_append, List.foldl_cons, hs]
    rfl

theorem load_eq_foldl (fs : Fs) (c : Config) (path : CString) :
    ∃ texts : List CString, (load fs c path).2 = texts.foldl loadText c := by
  have hp : ∀ (paths : List CString) (c : Config), ∃ texts : List CString,
      paths.foldl (fun c path => (loadPart fs c path).2) c = texts.foldl loadText c := fun paths => by
    induction paths
    case nil                => exact fun c => ⟨[], rfl⟩
    case cons path paths hi =>
      intro c
      cases ho : fs.open? path
      case none      => simpa [loadPart, ho] using hi c
      case some text =>
        have ⟨texts, ht⟩ := hi (c.loadText text)
        exact ⟨text :: texts, by simpa [loadPart, ho] using ht⟩
  cases ho : fs.open? path
  case none      => exact ⟨[], by simp [load, loadPart, ho]⟩
  case some text =>
    simp only [load, loadPart, ho]
    split
    case isTrue => exact ⟨[text], rfl⟩
    case isFalse =>
      split
      case h_1 => exact ⟨[text], rfl⟩
      case h_2 =>
        split
        case isTrue  => exact ⟨[text], rfl⟩
        case isFalse =>
          split
          case h_1       => exact ⟨[text], rfl⟩
          case h_2 parts _ =>
            have ⟨texts, ht⟩ := hp parts (c.loadText text)
            exact ⟨text :: texts, ht⟩

end F2b.Config
