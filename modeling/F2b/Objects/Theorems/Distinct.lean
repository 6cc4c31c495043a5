import F2b.Objects.Theorems.Loader

-- The jails of a loaded config have names of their own.

namespace F2b.Config

structure Distinct (c : Config) : Prop where
  nodup : (c.jails.map Section.name).Nodup
  short : ∀ n ∈ c.jails.map Section.name, n.length < CONFIG_KEY_MAX

theorem short_of_sectionOf {line : CString} {sec : Section} (h : sectionOf line = some sec) :
    sec.name.length < CONFIG_KEY_MAX := by
  simp only [sectionOf] at h
  split at h
  case h_1 => cases h
  case h_2 =>
    repeat' split at h
    all_goals cases h
    all_goals first
      | exact CString.length_strlcpy_lt _ (by decide)
      | exact Nat.zero_lt_succ _

theorem short_of_classify {line : CString} {sec : Section} (h : classify line = some (.header (some sec))) :
    sec.name.length < CONFIG_KEY_MAX := by
  simp only [classify] at h
  cases ht : strip line <;> simp only [ht, itemOf] at h
  case nil        => cases h
  case cons b s =>
    split_ifs at h
    case pos => exact short_of_sectionOf (Item.header.inj (Option.some.inj h))
    case neg => simp at h

theorem Distinct.append {c : Config} {sec : Section} (hc : c.Distinct) (hv : Valid c) (hf : Fresh sec)
    (hs : sec.name.length < CONFIG_KEY_MAX) : (c.sectionAppend sec).1.Distinct := by
  have hj : (c.sectionAppend sec).1.jails = _ := sections_append (t := .jail) hv hf
  split_ifs at hj with h
  case neg => exact ⟨hj ▸ hc.nodup, hj ▸ hc.short⟩
  case pos =>
    obtain ⟨ht, hn⟩ := h
    have hn : ∀ s ∈ c.jails, s.name ≠ sec.name := by
      rw [serial, Registry.serial_eq_none_iff, Section.id, ← ht] at hn
      exact hn
    constructor
    case nodup =>
      rw [hj, List.map_cons, List.nodup_cons]
      refine ⟨fun hm => ?_, hc.nodup⟩
      obtain ⟨s, hs, he⟩ := List.mem_map.mp hm
      exact hn s hs he
    case short =>
      rw [hj, List.map_cons]
      exact List.forall_mem_cons.mpr ⟨hs, hc.short⟩

theorem Distinct.modify {c : Config} {r : Ref} {f : Section → Section} (hc : c.Distinct)
    (hf : ∀ s, (f s).id = s.id) : (c.modify r f).Distinct := by
  have hm : (c.modify r f).jails.map Section.name = c.jails.map Section.name := by
    have hj : (c.modify r f).jails = _ := sections_modify (t := .jail)
    have hn (s : Section) : (f s).name = s.name := congrArg Prod.snd (hf s)
    rw [hj]
    split
    case isTrue  => exact Registry.map_key_modify hn _
    case isFalse => rfl
  exact ⟨hm ▸ hc.nodup, hm ▸ hc.short⟩

namespace Loader

theorem distinct_act {st : Loader} {cur : Option Section.Id} {line : CString} {item : Item} (hg : Good st cur)
    (hl : classify line = some item) (hc : st.config.Distinct) : (st.act item).config.Distinct := by
  cases item
  case header sec =>
    cases sec
    case none     => exact hc
    case some sec => exact hc.append hg.valid (fresh_of_classify hl) (short_of_classify hl)
  case pair param =>
    cases hs : st.current
    case none   => rwa [act_pair_none hs]
    case some r =>
      rw [act_pair_some hs]
      exact hc.modify (id_addParam param)

theorem distinct_step {st : Loader} {cur : Option Section.Id} (hg : Good st cur) (e : Option CString)
    (hc : st.config.Distinct) : (st.step e).config.Distinct := by
  cases e
  case none      => exact hc
  case some line =>
    rw [step, read]
    cases hl : classify line
    case none      => exact hc
    case some item => exact distinct_act hg hl hc

theorem distinct_steps {st : Loader} {cur : Option Section.Id} (hg : Good st cur) (es : List (Option CString))
    (hc : st.config.Distinct) : (es.foldl step st).config.Distinct := by
  induction es generalizing st cur
  case nil          => exact hc
  case cons e es hi => exact hi (good_step hg e) (distinct_step hg e hc)

end Loader

theorem distinct_loaded (fs : Fs) (path : CString) : (load fs .empty path).2.Distinct := by
  have ⟨texts, ht⟩ := load_eq_foldl fs .empty path
  rw [ht, show empty = (⟨empty, none⟩ : Loader).config from rfl, foldl_loadText]
  exact Loader.distinct_steps (Loader.good_none valid_empty) _ ⟨List.nodup_nil, List.forall_mem_nil _⟩

end F2b.Config
