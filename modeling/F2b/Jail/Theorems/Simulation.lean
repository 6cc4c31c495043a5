import F2b.Jail.Theorems.Restart

-- What a jail does depends on its own backend and its own state file only: with two backends that answer alike and
-- files that read alike it does the same, and it leaves all other files alone.

namespace F2b

variable {β₁ β₂ : Type} [Backend β₁] [Backend β₂]

-- Two backends answer alike as long as `r` holds between them.
structure Backend.Sim (r : β₁ → β₂ → Prop) : Prop where
  ping  : ∀ {b₁ b₂}, r b₁ b₂ → (Backend.ping b₁).1 = (Backend.ping b₂).1 ∧ r (Backend.ping b₁).2 (Backend.ping b₂).2
  check : ∀ ip {b₁ b₂}, r b₁ b₂ →
    (Backend.check ip b₁).1 = (Backend.check ip b₂).1 ∧ r (Backend.check ip b₁).2 (Backend.check ip b₂).2
  ban   : ∀ ip {b₁ b₂}, r b₁ b₂ →
    (Backend.ban ip b₁).1 = (Backend.ban ip b₂).1 ∧ r (Backend.ban ip b₁).2 (Backend.ban ip b₂).2
  unban : ∀ ip {b₁ b₂}, r b₁ b₂ →
    (Backend.unban ip b₁).1 = (Backend.unban ip b₂).1 ∧ r (Backend.unban ip b₁).2 (Backend.unban ip b₂).2
  stop  : ∀ {b₁ b₂}, r b₁ b₂ → (Backend.stop b₁).1 = (Backend.stop b₂).1 ∧ r (Backend.stop b₁).2 (Backend.stop b₂).2

namespace Statefile

-- The file that a save writes first.
def newPath (path : CString) : CString :=
  CString.strlcpy (path ++ ".new".toList) PATH_MAX

end Statefile

-- Two worlds in which the file `p` reads alike, if it is there. The other files of the first one are those of `D`, but
-- for the one that is written before it becomes `p`.
structure World.Sim (r : β₁ → β₂ → Prop) (p : CString) (D : Disk) (w₁ : World β₁) (w₂ : World β₂) : Prop where
  backend : r w₁.backend w₂.backend
  file    : (w₁.disk p).getD [] = (w₂.disk p).getD []
  frame   : ∀ q, q ≠ p → q ≠ Statefile.newPath p → w₁.disk q = D q

namespace World.Sim

variable {r : β₁ → β₂ → Prop} {p : CString} {D : Disk} {w₁ w₁' : World β₁} {w₂ w₂' : World β₂}

omit [Backend β₁] [Backend β₂] in
theorem call {f₁ : β₁ → Bool × β₁} {f₂ : β₂ → Bool × β₂}
    (hf : ∀ {b₁ b₂}, r b₁ b₂ → (f₁ b₁).1 = (f₂ b₂).1 ∧ r (f₁ b₁).2 (f₂ b₂).2) (h : Sim r p D w₁ w₂) :
    (w₁.call f₁).1 = (w₂.call f₂).1 ∧ Sim r p D (w₁.call f₁).2 (w₂.call f₂).2 :=
  ⟨(hf h.backend).1, (hf h.backend).2, h.file, h.frame⟩

omit [Backend β₁] [Backend β₂] in
theorem send (evt : CString) (h : Sim r p D w₁ w₂) : Sim r p D (w₁.send evt) (w₂.send evt) :=
  ⟨h.backend, h.file, h.frame⟩

end World.Sim

namespace Jail

variable {r : β₁ → β₂ → Prop} {p : CString} {D : Disk} {w₁ w₁' : World β₁} {w₂ : World β₂} {jail jail' : Jail}
  {inet : Inet} {filter : Filter} {now : Int}

open World (Sim)

theorem ban_sim (hr : Backend.Sim r) (jail : Jail) (addr : Ipaddr) (h : Sim r p D w₁ w₂) :
    ∃ ok jail' a v₁ v₂, jail.ban addr w₁ = (ok, jail', a, v₁) ∧ jail.ban addr w₂ = (ok, jail', a, v₂) ∧
    Sim r p D v₁ v₂ := by
  obtain ⟨hc, hw⟩ := h.call (hr.check (banned jail.settings addr).text)
  simp only [ban, hc]
  split
  case isTrue  => exact ⟨_, _, _, _, _, rfl, rfl, hw⟩
  case isFalse =>
    obtain ⟨hb, hv⟩ := hw.call (hr.ban (banned jail.settings addr).text)
    simp only [hb]
    split
    · exact ⟨_, _, _, _, _, rfl, rfl, hv.send _⟩
    · exact ⟨_, _, _, _, _, rfl, rfl, hv⟩

theorem unban_sim (hr : Backend.Sim r) (jail : Jail) (addr : Ipaddr) (h : Sim r p D w₁ w₂) :
    ∃ ok a v₁ v₂, jail.unban addr w₁ = (ok, a, v₁) ∧ jail.unban addr w₂ = (ok, a, v₂) ∧ Sim r p D v₁ v₂ := by
  have ⟨hc, hw⟩ := h.call (hr.unban (released addr).text)
  simp only [unban, hc]
  split
  · exact ⟨_, _, _, _, rfl, rfl, hw.send _⟩
  · exact ⟨_, _, _, _, rfl, rfl, hw⟩

theorem observe_sim (hr : Backend.Sim r) (jail : Jail) (now : Int) (q : Place Ipaddr) (stag : UInt32) (hit : Hit)
    (h : Sim r p D w₁ w₂) :
    ∃ jail' v₁ v₂, jail.observe q now stag hit w₁ = (jail', v₁) ∧ jail.observe q now stag hit w₂ = (jail', v₂) ∧
    Sim r p D v₁ v₂ := by
  simp only [observe]
  split
  case isTrue  => exact ⟨_, _, _, rfl, rfl, h.send _⟩
  case isFalse =>
    split
    case isTrue  => exact ⟨_, _, _, rfl, rfl, h.send _⟩
    case isFalse =>
      let m : Match := ⟨now, stag, hit.ftag, hit.score⟩
      obtain ⟨_, _, _, _, _, h₁, h₂, hv⟩ := ban_sim hr { jail with stats.found := jail.stats.found + 1 }
        (expireMatches jail.settings now (seen q.here m)) (h.send (evtMatch jail.name (seen q.here m) m))
      simp only [m] at h₁ h₂
      simp only [h₁, h₂]
      exact ⟨_, _, _, rfl, rfl, hv⟩

theorem consume_sim (hr : Backend.Sim r) {stag : UInt32} {line : CString} (h : Sim r p D w₁ w₂)
    (hc : consume inet filter now stag line jail w₁ = .ok (jail', w₁')) :
    ∃ w₂', consume inet filter now stag line jail w₂ = .ok (jail', w₂') ∧ Sim r p D w₁' w₂' := by
  obtain ⟨hcap, he⟩ | ⟨hit, q, hcap, hq, he⟩ := consume_ok hc
  case inl =>
    obtain ⟨rfl, rfl⟩ := Prod.mk.inj he
    exact ⟨_, consume_none hcap, h⟩
  case inr =>
    obtain ⟨j, v₁, v₂, h₁, h₂, hv⟩ := observe_sim hr jail now q stag hit h
    obtain ⟨rfl, rfl⟩ := Prod.mk.inj (he.trans h₁)
    exact ⟨v₂, h₂ ▸ consume_some hcap hq, hv⟩

theorem poll_sim (hr : Backend.Sim r) {feed : List (UInt32 × CString)} (h : Sim r p D w₁ w₂)
    (hc : poll inet filter now feed jail w₁ = .ok (jail', w₁')) :
    ∃ w₂', poll inet filter now feed jail w₂ = .ok (jail', w₂') ∧ Sim r p D w₁' w₂' := by
  induction feed generalizing jail w₁ w₂
  case nil            =>
    obtain ⟨rfl, rfl⟩ := Prod.mk.inj (Except.ok.inj hc)
    exact ⟨_, rfl, h⟩
  case cons l feed hi =>
    obtain ⟨stag, line⟩ := l
    by_cases hz : stag = 0
    case pos =>
      simp only [poll, hz, if_true] at hc ⊢
      obtain ⟨rfl, rfl⟩ := Prod.mk.inj (Except.ok.inj hc)
      exact ⟨_, rfl, h⟩
    case neg =>
      cases hl : jail.consume inet filter now stag line w₁
      case error => simp [poll, hz, hl, bind, Except.bind] at hc
      case ok x  =>
        obtain ⟨v₂, h₂, hv⟩ := consume_sim hr h hl
        simp only [poll, hz, if_false, hl, h₂, bind, Except.bind] at hc ⊢
        exact hi hv hc

theorem gather_sim (hr : Backend.Sim r) {feed : List (UInt32 × CString)} (h : Sim r p D w₁ w₂)
    (hc : gather inet filter now feed jail w₁ = .ok (jail', w₁')) :
    ∃ w₂', gather inet filter now feed jail w₂ = .ok (jail', w₂') ∧ Sim r p D w₁' w₂' := by
  have hp := (h.call hr.ping).2
  cases hs : jail.settings.flags.hasSource
  all_goals simp only [gather, hs, Bool.false_eq_true, if_false, if_true] at hc ⊢
  case true  => exact poll_sim hr hp hc
  case false =>
    obtain ⟨rfl, rfl⟩ := Prod.mk.inj (Except.ok.inj hc)
    exact ⟨_, rfl, hp⟩

theorem maintain_sim (hr : Backend.Sim r) (jail : Jail) (now : Int) (as : List Ipaddr) (h : Sim r p D w₁ w₂) :
    ∃ l v₁ v₂, maintain jail now as w₁ = (l, v₁) ∧ maintain jail now as w₂ = (l, v₂) ∧ Sim r p D v₁ v₂ := by
  induction as generalizing w₁ w₂
  case nil          => exact ⟨_, _, _, rfl, rfl, h⟩
  case cons a as hi =>
    have ⟨b, u₁, u₂, h₁, h₂, hu⟩ : ∃ b u₁ u₂, jail.release now a w₁ = (b, u₁) ∧ jail.release now a w₂ = (b, u₂) ∧
        Sim r p D u₁ u₂ := by
      simp only [release]
      split
      case isTrue  =>
        obtain ⟨_, _, _, _, h₁, h₂, hv⟩ := unban_sim hr jail a h
        exact ⟨_, _, _, by rw [h₁], by rw [h₂], hv⟩
      case isFalse => exact ⟨_, _, _, rfl, rfl, h⟩
    obtain ⟨l, v₁, v₂, h₁', h₂', hv⟩ := hi hu
    simp only [maintain, h₁, h₂, h₁', h₂']
    split <;> exact ⟨_, _, _, rfl, rfl, hv⟩

theorem tidy_sim (hr : Backend.Sim r) (jail : Jail) (now : Int) (h : Sim r p D w₁ w₂) :
    ∃ jail' v₁ v₂, tidy now jail w₁ = (jail', v₁) ∧ tidy now jail w₂ = (jail', v₂) ∧ Sim r p D v₁ v₂ := by
  obtain ⟨_, _, _, h₁, h₂, hv⟩ := maintain_sim hr jail now jail.ipaddrs h
  exact ⟨_, _, _, by rw [tidy, h₁], by rw [tidy, h₂], hv⟩

omit [Backend β₁] [Backend β₂] in
theorem save_sim (jail : Jail) (fate : SaveFate) (hp : jail.settings.flags.hasState → jail.sfile.path = p)
    (h : Sim r p D w₁ w₂) :
    ∃ jail' v₁ v₂, save fate jail w₁ = (jail', v₁) ∧ save fate jail w₂ = (jail', v₂) ∧ Sim r p D v₁ v₂ := by
  simp only [save, Statefile.save]
  split
  case isFalse => exact ⟨_, _, _, rfl, rfl, h⟩
  case isTrue hs =>
    have hp : jail.sfile.path = p := hp (Bool.and_eq_true_iff.mp hs).1
    obtain ⟨hb, hf, hd⟩ := h
    repeat' split
    case isTrue          => exact ⟨_, _, _, rfl, rfl, hb, hf, hd⟩
    case isFalse.isTrue  => exact ⟨_, _, _, rfl, rfl, hb, hf, hd⟩
    all_goals
      refine ⟨_, _, _, rfl, rfl, hb, ?_, fun q hq hq' => ?_⟩
      all_goals
        simp only [Statefile.newPath, ← hp] at *
        grind [Function.update_apply]

theorem process_sim (hr : Backend.Sim r) {feed : List (UInt32 × CString)} {fate : SaveFate}
    (hp : jail.settings.flags.hasState → jail.sfile.path = p) (h : Sim r p D w₁ w₂)
    (hc : process inet filter now feed fate jail w₁ = .ok (jail', w₁')) :
    ∃ w₂', process inet filter now feed fate jail w₂ = .ok (jail', w₂') ∧ Sim r p D w₁' w₂' := by
  obtain ⟨jail₁, v₁, hg₁, he⟩ := process_ok hc
  obtain ⟨v₂, hg₂, hv⟩ := gather_sim hr h hg₁
  have hf := gather_frame hg₁
  obtain ⟨jail₂, u₁, u₂, ht₁, ht₂, hu⟩ := tidy_sim hr jail₁ now hv
  have ht : jail₂.settings = jail₁.settings ∧ jail₂.sfile = jail₁.sfile := by
    rw [show jail₂ = (tidy now jail₁ v₁).1 by rw [ht₁]]
    exact ⟨rfl, rfl⟩
  obtain ⟨jail₃, t₁, t₂, hs₁, hs₂, ht'⟩ := save_sim jail₂ fate (by rw [ht.1, ht.2, hf.settings, hf.path]; exact hp) hu
  simp only [ht₁, hs₁] at he
  obtain ⟨rfl, rfl⟩ := Prod.mk.inj he
  refine ⟨t₂, ?_, ht'⟩
  simp only [process, hg₂, bind, Except.bind, ht₂, hs₂]
  rfl

theorem restore_sim (hr : Backend.Sim r) (as : List Ipaddr) (h : Sim r p D w₁ w₂) :
    Sim r p D (restore as w₁) (restore as w₂) := by
  induction as generalizing w₁ w₂
  case nil          => exact h
  case cons a as hi =>
    simp only [restore]
    split
    case isFalse => exact hi h
    case isTrue  =>
      refine hi ?_
      obtain ⟨hc, hw⟩ := h.call (hr.check a.text)
      simp only [readd, hc]
      split
      · exact hw
      · exact (hw.call (hr.ban a.text)).2

theorem start_sim (inet : Inet) (now : Int) (jail : Jail) (hr : Backend.Sim r)
    (hp : jail.settings.flags.hasState → jail.sfile.path = p) (h : Sim r p D w₁ w₂) :
    ∃ jail' v₁ v₂, start inet now jail w₁ = (jail', v₁) ∧ start inet now jail w₂ = (jail', v₂) ∧ Sim r p D v₁ v₂ := by
  have hl : (if jail.settings.flags.hasState then jail.sfile.load inet w₁.disk else jail.ipaddrs) =
      if jail.settings.flags.hasState then jail.sfile.load inet w₂.disk else jail.ipaddrs := by
    split
    case isFalse => rfl
    case isTrue hs =>
      have hd := h.file
      have he (f : Option CString) : f.elim [] (Statefile.loadText inet) = Statefile.loadText inet (f.getD []) := by
        cases f <;> rfl
      rw [Statefile.load, Statefile.load, hp hs, he, he, hd]
  simp only [start, hl]
  refine ⟨_, _, _, rfl, rfl, ?_⟩
  cases jail.settings.flags.hasBackend
  case false => exact h
  case true  => exact restore_sim hr _ h

theorem unbanAll_sim (hr : Backend.Sim r) (jail : Jail) (as : List Ipaddr) (errors : Bool) (h : Sim r p D w₁ w₂) :
    ∃ ok v₁ v₂, unbanAll jail as errors w₁ = (ok, v₁) ∧ unbanAll jail as errors w₂ = (ok, v₂) ∧ Sim r p D v₁ v₂ := by
  induction as generalizing errors w₁ w₂
  case nil          => exact ⟨_, _, _, rfl, rfl, h⟩
  case cons a as hi =>
    simp only [unbanAll]
    split
    case isFalse => exact hi errors h
    case isTrue  =>
      obtain ⟨_, _, _, _, h₁, h₂, hv⟩ := unban_sim hr jail a h
      simp only [h₁, h₂]
      exact hi _ hv

theorem stop_sim (jail : Jail) (hr : Backend.Sim r) (stops : Bool) (h : Sim r p D w₁ w₂) :
    ∃ ok jail' v₁ v₂, stop stops jail w₁ = (ok, jail', v₁) ∧ stop stops jail w₂ = (ok, jail', v₂) ∧
    Sim r p D v₁ v₂ := by
  simp only [stop]
  split
  case isFalse => exact ⟨_, _, _, _, rfl, rfl, h⟩
  case isTrue  =>
    obtain ⟨_, _, _, h₁, h₂, hv⟩ := unbanAll_sim hr jail jail.ipaddrs
      (jail.settings.flags.hasSource && !stops) h
    obtain ⟨hc, hw⟩ := hv.call hr.stop
    simp only [h₁, h₂, hc]
    exact ⟨_, _, _, _, rfl, rfl, hw⟩

section Commands

variable {status : Ipaddr → CString} {ressize : Nat} {op : Int}

theorem operate_sim (hr : Backend.Sim r) (q : Place Ipaddr) (h : Sim r p D w₁ w₂) :
    ∃ reply jail' v₁ v₂, operate status ressize op jail q w₁ = (reply, jail', v₁) ∧
    operate status ressize op jail q w₂ = (reply, jail', v₂) ∧ Sim r p D v₁ v₂ := by
  simp only [operate]
  split
  case isTrue  => exact ⟨_, _, _, _, rfl, rfl, h⟩
  case isFalse =>
    split
    case isTrue  =>
      obtain ⟨_, _, _, _, _, h₁, h₂, hv⟩ := ban_sim hr jail q.here h
      simp only [h₁, h₂]
      exact ⟨_, _, _, _, rfl, rfl, hv⟩
    case isFalse =>
      obtain ⟨_, _, _, _, h₁, h₂, hv⟩ := unban_sim hr jail q.here h
      simp only [h₁, h₂]
      exact ⟨_, _, _, _, rfl, rfl, hv⟩

theorem cmdIp_sim (inet : Inet) (status : Ipaddr → CString) (ressize : Nat) (op now : Int) (jail : Jail)
    (hr : Backend.Sim r) (ip : CString) (h : Sim r p D w₁ w₂) :
    ∃ reply jail' v₁ v₂, cmdIp inet status ressize op now ip jail w₁ = (reply, jail', v₁) ∧
    cmdIp inet status ressize op now ip jail w₂ = (reply, jail', v₂) ∧ Sim r p D v₁ v₂ := by
  simp only [cmdIp]
  repeat' split
  all_goals first | exact ⟨_, _, _, _, rfl, rfl, h⟩ | exact operate_sim hr _ h

end Commands
end Jail
end F2b
