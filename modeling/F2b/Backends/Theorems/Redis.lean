import F2b.Backends.Redis

-- What the backend 'redis' publishes: for each call of `ban` at most one message, with the address of the call.

namespace F2b.Redis

theorem published_append (cs cs' : List (List CString)) : published (cs ++ cs') = published cs ++ published cs' :=
  List.filterMap_append ..

namespace Publisher

variable {r r' r₁ r₂ r₃ : Publisher} {args : List CString} {ip : CString}

structure Quiet (r r' : Publisher) : Prop where
  hash      : r'.hash = r.hash
  published : published r'.executed = published r.executed

theorem Quiet.refl (r : Publisher) : Quiet r r :=
  ⟨rfl, rfl⟩

theorem Quiet.trans (h₁ : Quiet r₁ r₂) (h₂ : Quiet r₂ r₃) : Quiet r₁ r₃ :=
  ⟨h₂.hash.trans h₁.hash, h₂.published.trans h₁.published⟩

theorem command_eq (args : List CString) (r : Publisher) :
    (r.command args).2.hash = r.hash ∧
    ((r.command args).2.executed = r.executed ∨ (r.command args).2.executed = r.executed ++ [args]) := by
  simp only [command, answer]
  split
  case h_1 h => obtain ⟨_, rfl⟩ := Prod.mk.inj h; exact ⟨rfl, .inr rfl⟩
  case h_2 h => obtain ⟨_, rfl⟩ := Prod.mk.inj h; exact ⟨rfl, .inl rfl⟩
  case h_3 h => obtain ⟨_, rfl⟩ := Prod.mk.inj h; exact ⟨rfl, .inl rfl⟩
  case h_4 h => obtain ⟨_, rfl⟩ := Prod.mk.inj h; exact ⟨rfl, .inr rfl⟩

theorem command_quiet (h : Redis.published [args] = []) (r : Publisher) : Quiet r (r.command args).2 := by
  obtain ⟨hh, he | he⟩ := command_eq args r
  case inl => exact ⟨hh, by rw [he]⟩
  case inr => exact ⟨hh, by rw [he, published_append, h, List.append_nil]⟩

theorem send_eq (args : List CString) (r : Publisher) :
    (r.send args).2.hash = (r.command args).2.hash ∧ (r.send args).2.executed = (r.command args).2.executed := by
  simp only [send]
  split <;> exact ⟨rfl, rfl⟩

theorem send_quiet (h : Redis.published [args] = []) (r : Publisher) : Quiet r (r.send args).2 := by
  have hq := command_quiet h r
  have ⟨hh, he⟩ := send_eq args r
  exact ⟨hh.trans hq.hash, by rw [he, hq.published]⟩

theorem Quiet.andThen {x : Bool × Publisher} {f : Publisher → Bool × Publisher} (h : Quiet r x.2)
    (hf : ∀ r, Quiet r (f r).2) : Quiet r (andThen x f).2 := by
  simp only [Redis.andThen]
  split
  · exact h.trans (hf x.2)
  · exact h

theorem auth_quiet (r : Publisher) : Quiet r r.auth.2 := by
  simp only [auth]
  split
  · exact .refl r
  · exact command_quiet rfl r

theorem select_quiet (r : Publisher) : Quiet r r.select.2 := by
  simp only [select]
  split
  · exact .refl r
  · exact command_quiet rfl r

theorem connect_quiet (r : Publisher) : Quiet r r.connect.2 := by
  simp only [connect]
  split
  · exact .refl r
  · exact .andThen ⟨rfl, rfl⟩ fun r => (auth_quiet r).andThen fun r => (select_quiet r).andThen fun r => ⟨rfl, rfl⟩

theorem restart_quiet (r : Publisher) : Quiet r r.restart := by
  simp only [restart, start]
  split
  · have h := connect_quiet { r with ids := (Exec.usageInc r.ids r.name).2, conn := none, pingNum := 0 }
    exact ⟨h.hash, h.published⟩
  · have h := connect_quiet { r with conn := none, pingNum := 0 }
    exact ⟨h.hash, h.published⟩

theorem stop_quiet (r : Publisher) : Quiet r r.stop.2 := by
  simp only [stop]
  split
  · split <;> exact ⟨rfl, rfl⟩
  · exact ⟨rfl, rfl⟩

theorem ping_quiet (r : Publisher) : Quiet r r.ping.2 := by
  refine (connect_quiet r).andThen fun r => ?_
  dsimp only
  split
  · exact ⟨rfl, rfl⟩
  · have hs : Quiet _ (Publisher.send ["PING".toList] _).2 := send_quiet rfl { r with pingNum := 0 }
    exact ⟨hs.hash, hs.published⟩

theorem publish_eq (ip : CString) (r : Publisher) :
    (r.send ["PUBLISH".toList, r.hash, ip]).2.hash = r.hash ∧
    (published (r.send ["PUBLISH".toList, r.hash, ip]).2.executed = published r.executed ∨
      published (r.send ["PUBLISH".toList, r.hash, ip]).2.executed = published r.executed ++ [⟨r.hash, ip⟩]) := by
  have ⟨hh, he⟩ := send_eq ["PUBLISH".toList, r.hash, ip] r
  obtain ⟨hh', he' | he'⟩ := command_eq ["PUBLISH".toList, r.hash, ip] r
  case inl => exact ⟨hh.trans hh', .inl (by rw [he, he'])⟩
  case inr =>
    have hp : Redis.published [["PUBLISH".toList, r.hash, ip]] = [⟨r.hash, ip⟩] := rfl
    exact ⟨hh.trans hh', .inr (by rw [he, he', published_append, hp])⟩

theorem ban_eq (ip : CString) (r : Publisher) :
    (r.ban ip).2.hash = r.hash ∧
    (published (r.ban ip).2.executed = published r.executed ∨
      published (r.ban ip).2.executed = published r.executed ++ [⟨r.hash, ip⟩]) := by
  have hc := connect_quiet r
  have hq : Quiet _ (r.connect.2.send ["HINCRBY".toList, r.connect.2.hash, ip, "1".toList]).2 :=
    send_quiet rfl r.connect.2
  have hs := hc.trans hq
  simp only [ban, Redis.andThen]
  split
  case isFalse => exact ⟨hc.hash, .inl hc.published⟩
  case isTrue  =>
    split
    case isFalse => exact ⟨hs.hash, .inl hs.published⟩
    case isTrue  =>
      have ⟨hh, hp⟩ := publish_eq ip (r.connect.2.send ["HINCRBY".toList, r.connect.2.hash, ip, "1".toList]).2
      refine ⟨hh.trans hs.hash, hp.imp (·.trans hs.published) (·.trans ?_)⟩
      rw [hs.published, hs.hash]

end Publisher
end F2b.Redis
