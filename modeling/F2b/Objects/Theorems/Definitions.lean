import F2b.Lib.Overwrite
import F2b.Objects.Theorems.Loader

-- The options of a section after any sequence of config files, by their definitions in the files.

namespace F2b.Config

open Section (Id)
open Overwrite

def lastDef (name : CString) (ps : List Param) : Option Param :=
  (ps.filter (·.name = name)).getLast?

-- The option that a line defines in a section. `cur` is the current section before the line.
def Loader.defAt (id : Id) (cur : Option Id) : Option CString → Option Param
  | none      => none
  | some line =>
    match classify line with
    | some (.pair param) => if some id = cur then some param else none
    | _                  => none

def Loader.defs (id : Id) : Option Id → List (Option CString) → List Param
  | _,   []      => []
  | cur, e :: es => (defAt id cur e).toList ++ defs id (stepId cur e) es

-- The definitions for a section in the order in which the files are processed.
def definitions (texts : List CString) (id : Id) : List Param :=
  Loader.defs id none (events texts)

def collect (type : SectionType) (ds : List Param) : List Param :=
  ds.foldl (fun list p => paramAppend list p (Loader.replaces type)) []

def params (c : Config) (id : Id) : List Param :=
  (c.find id).elim [] (·.param)

variable {id : Id} {c : Config} {sec : Section} {type : SectionType}

theorem find_of_ref {r : Ref} (h : c.ref id = some r) : ∃ sec, c.find id = some sec := by
  refine Option.ne_none_iff_exists'.mp fun hn => ?_
  obtain ⟨_, hs, _⟩ := Option.map_eq_some_iff.mp h
  exact absurd (Registry.serial_eq_none_iff.mpr (Registry.find_eq_none_iff.mp hn)) (by simp_all [serial])

theorem id_of_find (hv : Valid c) (h : c.find id = some sec) : sec.id = id := by
  have ht := hv.type id.1 sec (List.mem_of_find?_eq_some h)
  have hn : sec.name = id.2 := by simpa using List.find?_some h
  exact Prod.ext ht hn

namespace Loader

variable {st : Loader} {cur : Option Id}

theorem params_act {item : Item} (id : Id) (hg : Good st cur) (hi : item.Fresh) :
    (st.act item).config.params id =
    match item with
    | .header _   => st.config.params id
    | .pair param =>
      if some id = cur then paramAppend (st.config.params id) param (replaces id.1)
      else st.config.params id := by
  rw [params, find_act hg hi]
  cases item
  case header sec =>
    cases sec
    case none     => rfl
    case some sec =>
      by_cases he : id = sec.id
      case neg => simp [he, params]
      case pos =>
        subst he
        cases hf : st.config.find sec.id
        case none   => simp [params, hf, (hi sec rfl).param]
        case some s => simp [params, hf]
  case pair param =>
    by_cases he : some id = cur
    case neg => simp [he, params]
    case pos =>
      have hc := hg.current
      rw [← he] at hc
      generalize st.current = r at hc
      cases hc
      case some r hr =>
        have ⟨sec, hs⟩ := find_of_ref hr
        have ht : sec.type = id.1 := congrArg Prod.fst (id_of_find hg.valid hs)
        simp [he, params, hs, addParam, ht]

theorem params_step (hg : Good st cur) (e : Option CString) :
    (st.step e).config.params id =
    (defAt id cur e).toList.foldl (fun list p => paramAppend list p (replaces id.1)) (st.config.params id) := by
  cases e
  case none      => rfl
  case some line =>
    cases hc : classify line
    case none      => simp [step, read, defAt, hc]
    case some item =>
      have := params_act id hg (item_fresh hc)
      cases item
      case header => simpa [step, read, defAt, hc] using this
      case pair p => by_cases he : some id = cur <;> simpa [step, read, defAt, hc, he] using this

theorem params_steps (id : Id) (hg : Good st cur) (es : List (Option CString)) :
    (es.foldl step st).config.params id =
    (defs id cur es).foldl (fun list p => paramAppend list p (replaces id.1)) (st.config.params id) := by
  induction es generalizing st cur
  case nil          => rfl
  case cons e es hi => rw [List.foldl_cons, hi (good_step hg e), params_step hg e, defs, List.foldl_append]

end Loader

theorem Loader.defs_append (id : Id) (cur : Option Id) (es es' : List (Option CString)) :
    defs id cur (es ++ es') = defs id cur es ++ defs id (es.foldl stepId cur) es' := by
  induction es generalizing cur
  case nil          => rfl
  case cons e es hi => rw [List.cons_append, defs, hi, defs, List.foldl_cons, List.append_assoc]

theorem definitions_append (texts texts' : List CString) (id : Id) :
    definitions texts id <+: definitions (texts ++ texts') id := by
  rw [definitions, definitions, events, events, List.flatMap_append, Loader.defs_append]
  exact List.prefix_append ..

theorem find_loaded {texts : List CString} (h : (texts.foldl loadText empty).find id = some sec) :
    sec = ⟨id.2, id.1, collect id.1 (definitions texts id)⟩ := by
  have hg := Loader.good_steps (Loader.good_none valid_empty) (events texts)
  have hp := Loader.params_steps id (Loader.good_none valid_empty) (events texts)
  have he := foldl_loadText texts ⟨empty, none⟩
  rw [← he] at hp
  have hi : sec.id = id := id_of_find (he ▸ hg.valid) h
  have hs : sec.param = collect id.1 (definitions texts id) := by
    rw [params, h] at hp
    refine hp.trans ?_
    have : empty.params id = [] := by
      obtain ⟨t, name⟩ := id
      cases t <;> rfl
    rw [this]
    rfl
  obtain ⟨name, type, param⟩ := sec
  obtain ⟨rfl, rfl⟩ := Prod.mk.inj hi
  rw [← hs]

theorem lastDef_concat (name : CString) (ps : List Param) (p : Param) :
    lastDef name (ps ++ [p]) = if p.name = name then some p else lastDef name ps := by
  by_cases h : p.name = name <;> simp [lastDef, h]

section Collect

theorem collect_append {ds : List Param} (h : Loader.replaces type = false) : collect type ds = ds := by
  have ha : ∀ list : List Param, ds.foldl (fun list p => paramAppend list p false) list = list ++ ds := by
    induction ds
    case nil          => exact fun list => (List.append_nil list).symm
    case cons d ds hi =>
      intro list
      rw [List.foldl_cons, hi]
      exact (List.append_cons list d ds).symm
  rw [collect, h, ha, List.nil_append]

theorem filter_paramAppend {list : List Param} (p : Param) (name : CString)
    (ho : (list.filter (·.name = p.name)).length ≤ 1) :
    (paramAppend list p true).filter (·.name = name) =
    if p.name = name then [p] else list.filter (·.name = name) := by
  cases hf : Place.find? (·.name = p.name) list
  case none =>
    have hn : ∀ a ∈ list, ¬a.name = p.name := by simpa using Place.find?_eq_none_iff.mp hf
    have ha : paramAppend list p true = list ++ [p] := by simp [paramAppend, hf]
    rw [ha, List.filter_append]
    by_cases he : p.name = name
    case neg => simp [he]
    case pos =>
      subst he
      simpa using hn
  case some pl =>
    have hl := Place.find?_list hf
    have hh : pl.here.name = p.name := by simpa using Place.find?_here hf
    have ha : paramAppend list p true = pl.before ++ p :: pl.after := by
      obtain ⟨before, ⟨_, _⟩, after⟩ := pl
      obtain rfl : _ = p.name := hh
      simp [paramAppend, hf]
    rw [ha]
    rw [← hl, Place.list] at ho ⊢
    by_cases he : p.name = name
    case neg => simp [List.filter_append, he, hh]
    case pos =>
      subst he
      simp only [List.filter_append, List.filter_cons, hh, decide_true, if_true, List.length_append,
        List.length_cons] at ho ⊢
      have hb : (pl.before.filter (·.name = p.name)).length = 0 := by omega
      have ha : (pl.after.filter (·.name = p.name)).length = 0 := by omega
      rw [List.length_eq_zero_iff.mp hb, List.length_eq_zero_iff.mp ha]
      simp

theorem filter_collect (h : Loader.replaces type) (ds : List Param) (name : CString) :
    (collect type ds).filter (·.name = name) = (lastDef name ds).toList := by
  induction ds using List.reverseRecOn generalizing name
  case nil              => rfl
  case append_singleton ds d hi =>
    have hc : collect type (ds ++ [d]) = paramAppend (collect type ds) d true := by
      rw [collect, List.foldl_append, h]
      simp [collect, h]
    rw [hc, filter_paramAppend d name (by rw [hi]; exact Option.length_toList_le), hi, lastDef, lastDef]
    by_cases he : d.name = name <;> simp [he]

end Collect
end F2b.Config
