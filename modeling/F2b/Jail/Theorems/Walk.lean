import F2b.Jail.Walk
import F2b.Jail.Theorems.Pass
import F2b.Jail.Theorems.Score

-- What the maintenance loop does to the nodes of the list.

namespace F2b.Jail

open Linked

variable {ι : Type} [DecidableEq ι] {β : Type} [Backend β] {jail : Jail} {now : Int}

-- The nodes that stay, with their records after the release of the bans that are over.
def keptCells (jail : Jail) (now : Int) (cs : List (ι × Ipaddr)) : List (ι × Ipaddr) :=
  (cs.map fun c => (c.1, eased now c.2)).filter fun c =>
    now ≤ max c.2.lastseen c.2.releaseAt + jail.settings.expiretime

def unbans (jail : Jail) (as : List Ipaddr) (w : World β) : World β :=
  as.foldl (fun w a => (jail.unban a w).2.2) w

theorem release_eq_eased (jail : Jail) (now : Int) (a : Ipaddr) (w : World β) :
    jail.release now a w = (eased now a, unbans jail ([a].filter (due now)) w) := by
  refine Prod.ext (release_fst jail now a w) ?_
  cases h : due now a
  case false => exact (congrArg Prod.snd (if_neg (Bool.eq_false_iff.mp h)) :).trans (by simp [unbans, h])
  case true  => exact (congrArg Prod.snd (if_pos h) :).trans (by simp [unbans, h])

theorem unbans_cons (jail : Jail) (now : Int) (a : Ipaddr) (as : List Ipaddr) (w : World β) :
    unbans jail ((a :: as).filter (due now)) w =
    unbans jail (as.filter (due now)) (unbans jail ([a].filter (due now)) w) := by
  rw [unbans, unbans, unbans, ← List.foldl_append, ← List.filter_append]
  rfl

omit [DecidableEq ι] in
theorem keptCells_cons (jail : Jail) (now : Int) (a : ι) (x : Ipaddr) (cs : List (ι × Ipaddr)) :
    keptCells jail now ((a, x) :: cs) =
      if jail.expired now (eased now x) then keptCells jail now cs
      else (a, eased now x) :: keptCells jail now cs := by
  have hx := expired_iff jail now (eased now x)
  rw [← Int.not_le] at hx
  simp only [keptCells, List.map_cons, List.filter_cons, hx, decide_eq_true_eq, ite_not]

omit [DecidableEq ι] in
theorem keptCells_append (jail : Jail) (now : Int) (cs ds : List (ι × Ipaddr)) :
    keptCells jail now (cs ++ ds) = keptCells jail now cs ++ keptCells jail now ds := by
  rw [keptCells, List.map_append, List.filter_append]
  rfl

omit [DecidableEq ι] in
theorem of_mem_keptCells {cs : List (ι × Ipaddr)} {c : ι × Ipaddr} (h : c ∈ keptCells jail now cs) :
    ∃ x, (c.1, x) ∈ cs ∧ c.2 = eased now x := by
  obtain ⟨⟨a, x⟩, hm, rfl⟩ := List.mem_map.mp (List.mem_filter.mp h).1
  exact ⟨x, hm, rfl⟩

omit [DecidableEq ι] in
theorem sublist_keptCells (jail : Jail) (now : Int) (cs : List (ι × Ipaddr)) :
    ((keptCells jail now cs).map Prod.fst).Sublist (cs.map Prod.fst) := by
  have h : ((keptCells jail now cs).map Prod.fst).Sublist ((cs.map fun c => (c.1, eased now c.2)).map Prod.fst) :=
    List.filter_sublist.map _
  rwa [List.map_map] at h

omit [DecidableEq ι] in
theorem keptCells_eq_nil {a : ι} {x : Ipaddr} (h : a ∉ (keptCells jail now [(a, x)]).map Prod.fst) :
    keptCells jail now [(a, x)] = [] := by
  obtain he | he := List.sublist_singleton.mp (sublist_keptCells jail now [(a, x)])
  case inl => exact List.map_eq_nil_iff.mp he
  case inr => exact absurd (he ▸ List.mem_singleton_self a) h

namespace Walk

variable {st : Walk ι β} {old rest : List (ι × Ipaddr)} {a : ι} {x : Ipaddr}

def At (st : Walk ι β) (old rest : List (ι × Ipaddr)) : Prop :=
  Walked st.heap st.ipaddrs st.prev st.addr old rest

structure Turned (jail : Jail) (now : Int) (st : Walk ι β) (old : List (ι × Ipaddr)) (a : ι) (x : Ipaddr)
    (rest : List (ι × Ipaddr)) (st' : Walk ι β) : Prop where
  at'   : st'.At (old ++ keptCells jail now [(a, x)]) rest
  hostc : st'.hostc = st.hostc + (keptCells jail now [(a, x)]).length
  world : st'.world = unbans jail ([x].filter (due now)) st.world
  frame : ∀ b, b ≠ a → b ∉ old.map Prod.fst → st'.heap b = st.heap b
  freed : keptCells jail now [(a, x)] = [] → st'.heap a = none

theorem turn_ok (jail : Jail) (now : Int) (h : st.At old ((a, x) :: rest)) :
    ∃ st', st.turn jail now a = some st' ∧ Turned jail now st old a x rest st' := by
  have ⟨_, next, hn⟩ := h.addr_eq
  have hw := h.write hn (eased now x)
  have hn' : (st.heap.store a ⟨eased now x, next⟩) a = some ⟨eased now x, next⟩ := Heap.store_self _
  have hf {b : ι} (hb : b ≠ a) : (st.heap.store a ⟨eased now x, next⟩) b = st.heap b := Heap.store_of_ne _ hb
  have hk := keptCells_cons jail now a x []
  simp only [turn, hn, release_eq_eased, bind, Option.bind, pure]
  cases hx : jail.expired now (eased now x)
  case false =>
    rw [hx] at hk
    refine ⟨_, rfl, ?_, ?_, rfl, fun b hb _ => hf hb, fun he => by simp [hk] at he⟩
    · exact hk ▸ hw.advance hn'
    · rw [hk]; rfl
  case true =>
    have hk : keptCells jail now [(a, x)] = [] := hk.trans (by rw [hx]; rfl)
    cases hp : st.prev
    case none =>
      have hw : Walked _ st.ipaddrs none _ _ _ := hp ▸ hw
      have ⟨hd, ho⟩ := hw.drop_first hn'
      refine ⟨_, rfl, ?_, by simp [hk], rfl, fun b hb _ => ?_, fun _ => Heap.free_self⟩
      · rw [hk, ho, List.append_nil, At]
        exact hd
      · exact (Heap.free_of_ne hb).trans (hf hb)
    case some p =>
      have hw : Walked _ st.ipaddrs (some p) _ _ _ := hp ▸ hw
      have ⟨y, hy, hm, hd⟩ := hw.drop_next hn'
      simp only [hy]
      refine ⟨_, rfl, ?_, by simp [hk], rfl, fun b hb ho => ?_, fun _ => Heap.free_self⟩
      · rw [hk, List.append_nil, At]
        exact hd
      · have hbp : b ≠ p := fun he => ho (he ▸ hm)
        exact (Heap.free_of_ne hb).trans ((Heap.store_of_ne _ hbp).trans (hf hb))

structure Swept (jail : Jail) (now : Int) (st : Walk ι β) (old rest : List (ι × Ipaddr)) (st' : Walk ι β) :
    Prop where
  chain : Chain st'.heap st'.ipaddrs (old ++ keptCells jail now rest)
  hostc : st'.hostc = st.hostc + (keptCells jail now rest).length
  world : st'.world = unbans jail ((rest.map Prod.snd).filter (due now)) st.world
  frame : ∀ b, b ∉ (old ++ rest).map Prod.fst → st'.heap b = st.heap b
  freed : ∀ c ∈ rest, c.1 ∉ (keptCells jail now rest).map Prod.fst → st'.heap c.1 = none

theorem run_ok (jail : Jail) (now : Int) (h : st.At old rest) :
    ∃ st', st.run jail now rest.length = some st' ∧ Swept jail now st old rest st' := by
  induction rest generalizing st old
  case nil =>
    have ha : st.addr = none := Seg.nil_iff.mp h.ahead
    refine ⟨st, by simp [run, ha], ?_, rfl, rfl, fun _ _ => rfl, fun c hc => absurd hc List.not_mem_nil⟩
    simpa [keptCells] using h.finish
  case cons c rest hi =>
    obtain ⟨a, x⟩ := c
    have ⟨st₁, ht, hs⟩ := turn_ok jail now h
    have ⟨st', hr, hw⟩ := hi hs.at'
    have hk : keptCells jail now ((a, x) :: rest) = keptCells jail now [(a, x)] ++ keptCells jail now rest :=
      keptCells_append jail now [(a, x)] rest
    have hsub : ((old ++ keptCells jail now [(a, x)] ++ rest).map Prod.fst).Sublist
        ((old ++ (a, x) :: rest).map Prod.fst) := by
      rw [List.append_assoc, List.map_append, List.map_append, List.map_append, List.map_cons]
      exact ((sublist_keptCells jail now [(a, x)]).append_right _).append_left _
    refine ⟨st', ?_, ?_, ?_, ?_, fun b hb => ?_, fun c hc hn => ?_⟩
    case refine_1 => simp [run, h.addr_eq.1, ht, hr]
    case refine_2 => simpa [hk] using hw.chain
    case refine_3 =>
      rw [hw.hostc, hs.hostc, hk, List.length_append, Nat.add_assoc]
    case refine_4 => rw [hw.world, hs.world, List.map_cons, ← unbans_cons]
    case refine_5 =>
      refine (hw.frame b fun hm => hb (hsub.subset hm)).trans (hs.frame b ?_ ?_)
      · rintro rfl
        exact hb (by simp)
      · exact fun hm => hb (by rw [List.map_append]; exact List.mem_append_left _ hm)
    case refine_6 =>
      rw [hk, List.map_append, List.mem_append, not_or] at hn
      obtain rfl | hc := List.mem_cons.mp hc
      · have he := keptCells_eq_nil hn.1
        exact (hw.frame a (by simpa [he] using h.not_mem)).trans (hs.freed he)
      · exact hw.freed c hc hn.2

end Walk

-- What the loop makes of a list.
structure Maintained (jail : Jail) (now : Int) (heap : Heap ι Ipaddr) (cs : List (ι × Ipaddr)) (w : World β)
    (st : Walk ι β) : Prop where
  unbans    : st.world = unbans jail ((cs.map Prod.snd).filter (due now)) w
  kept      : Chain st.heap st.ipaddrs (keptCells jail now cs)
  banned    : ∀ c ∈ cs, c.2.banned → now ≤ c.2.releaseAt → c ∈ keptCells jail now cs
  unchanged : ∀ c ∈ keptCells jail now cs, ∃ a, (c.1, a) ∈ cs ∧ if due now a then c.2 = released a else c.2 = a
  hosts     : st.hostc = (keptCells jail now cs).length
  freed     : ∀ c ∈ cs, c.1 ∉ (keptCells jail now cs).map Prod.fst → st.heap c.1 = none
  frame     : ∀ a, a ∉ cs.map Prod.fst → st.heap a = heap a

variable {heap : Heap ι Ipaddr} {head : Option ι} {cs : List (ι × Ipaddr)}

omit [DecidableEq ι] in
theorem mem_keptCells_of_banned (he : 0 < jail.settings.expiretime) {c : ι × Ipaddr} (hc : c ∈ cs)
    (hr : now ≤ c.2.releaseAt) : c ∈ keptCells jail now cs := by
  have hd : eased now c.2 = c.2 := by simp [eased, Int.not_lt.mpr hr]
  refine List.mem_filter.mpr ⟨List.mem_map.mpr ⟨c, hc, by rw [hd]⟩, ?_⟩
  rw [decide_eq_true_eq]
  omega

-- The loop comes to its end, it releases the bans that are over and no other, each with one call, and it
-- keeps the hosts that are not expired then, in their order.
theorem walk_maintained (h : Chain heap head cs) (he : 0 < jail.settings.expiretime) (w : World β) :
    ∃ st, (Walk.start heap head w).run jail now cs.length = some st ∧ Maintained jail now heap cs w st := by
  have hs : (Walk.start heap head w).At [] cs := Walked.start h
  have ⟨st, hr, hw⟩ := Walk.run_ok jail now hs
  refine ⟨st, hr, hw.world, hw.chain, fun c hc _ => mem_keptCells_of_banned he hc, fun c hc => ?_,
    by simpa [Walk.start] using hw.hostc, hw.freed, hw.frame⟩
  have ⟨a, ha, hc⟩ := of_mem_keptCells hc
  refine ⟨a, ha, ?_⟩
  split
  case isTrue hd  => exact hc.trans (if_pos hd)
  case isFalse hd => exact hc.trans (if_neg hd)

theorem maintain_world (jail : Jail) (now : Int) (as : List Ipaddr) (w : World β) :
    (maintain jail now as w).2 = unbans jail (as.filter (due now)) w := by
  induction as generalizing w
  case nil          => rfl
  case cons a as hi =>
    have hm : (maintain jail now (a :: as) w).2 = (maintain jail now as (jail.release now a w).2).2 := by
      simp only [maintain]
      split <;> rfl
    rw [hm, hi, release_eq_eased, ← unbans_cons]

-- The loop on the nodes does what the model of the pass does to the list.
theorem walk_tidy (h : Chain heap head cs) (hl : jail.ipaddrs = cs.map Prod.snd) (w : World β) :
    ∃ st cs', (Walk.start heap head w).run jail now cs.length = some st ∧ Chain st.heap st.ipaddrs cs' ∧
    tidy now jail w = ({ jail with ipaddrs := cs'.map Prod.snd, stats.hosts := st.hostc }, st.world) := by
  have hs : (Walk.start heap head w).At [] cs := Walked.start h
  have ⟨st, hr, hw⟩ := Walk.run_ok jail now hs
  have hm : (maintain jail now jail.ipaddrs w).1 = (keptCells jail now cs).map Prod.snd := by
    rw [(maintain_eq jail now jail.ipaddrs w).1, hl, keptCells, List.map_map, List.filter_map, List.filter_map,
      List.map_map]
    refine congrArg (List.map _) (List.filter_congr fun c _ => ?_)
    have hx := expired_iff jail now (eased now c.2)
    simp only [Function.comp_apply]
    grind
  have hc : st.hostc = (keptCells jail now cs).length := by simpa [Walk.start] using hw.hostc
  refine ⟨st, keptCells jail now cs, hr, hw.chain, ?_⟩
  have hp : maintain jail now jail.ipaddrs w = ((keptCells jail now cs).map Prod.snd, st.world) := by
    refine Prod.ext hm ((maintain_world jail now jail.ipaddrs w).trans ?_)
    rw [hl, hw.world]
    rfl
  rw [tidy, hp, hc]
  simp only [List.length_map]

section Example

def node (text : CString) (releaseAt : Int) : Ipaddr where
  type      := .inet
  text      := text
  banned    := true
  bancount  := 1
  lastseen  := 1000
  bannedAt  := 1000
  releaseAt := releaseAt
  binary    := []
  history   := .flush

def nodes : List (Nat × Ipaddr) :=
  [(1, node "192.0.2.7".toList 4600), (2, node "192.0.2.8".toList 8200)]

def nodesHeap : Heap Nat Ipaddr :=
  (Heap.store (fun _ => none) 2 ⟨node "192.0.2.8".toList 8200, none⟩).store 1
    ⟨node "192.0.2.7".toList 4600, some 2⟩

theorem walk_maintained_nodes :
    ∃ st : Walk Nat Blocklist, (Walk.start nodesHeap (some 1) ⟨⟨[], [], []⟩, [], fun _ => none⟩).run sshJail 5000 2 =
      some st ∧ Maintained sshJail 5000 nodesHeap nodes ⟨⟨[], [], []⟩, [], fun _ => none⟩ st :=
  walk_maintained ⟨.cons rfl (.cons rfl .nil), by decide⟩ (by decide) _

end Example

end F2b.Jail
