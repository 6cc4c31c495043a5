import F2b.Jail.Theorems.System
import F2b.Filters.Match

-- What the lines of a source do to the list of hosts.

namespace F2b.Jail

variable {β : Type} [Backend β] {inet : Inet}

variable {jail : Jail} {w : World β} {filter : Filter} {now : Int} {stag : UInt32} {line : CString}

-- The filter answers and what it finds, if it does, is an address. Without a filter the line is.
def addressed (inet : Inet) (jail : Jail) (filter : Filter) (line : CString) : Bool :=
  if jail.settings.flags.hasFilter then
    match filter line with
    | .ok (some hit) => hit.ftag = 0 || decide (Ipaddr.Valid inet hit.text)
    | .ok none       => true
    | .error _       => false
  else
    decide (Ipaddr.Valid inet line)

-- The list `l'` after a match of the address at `now`: one record is found in the list `l`, or
-- created at its head if there is none, and updated, and all others stay as they are.
def Updates (inet : Inet) (now : Int) (addr : CString) (l l' : List Ipaddr) : Prop :=
  ∃ (p : Place Ipaddr) (a : Ipaddr),
    (p.list = l ∨ (Ipaddr.create inet addr = some p.here ∧ addr ∉ Addrlist.texts l ∧
      p = ⟨[], p.here, l⟩)) ∧
    p.here.text = addr ∧ l' = (p.set a).list ∧
    a.text = addr ∧ a.binary = p.here.binary ∧ a.lastseen = now

def found (jail : Jail) (filter : Filter) (line : CString) : Option CString :=
  if jail.settings.flags.hasFilter then
    match filter line with
    | .ok (some hit) => if hit.ftag ≠ 0 then some hit.text else none
    | _              => none
  else
    some line

-- Every line is consumed: one with an address updates its record, the others leave the list alone.
def Orderly (inet : Inet) (filter : Filter) (now : Int) : List (UInt32 × CString) → Jail → World β → Prop
  | [],                   _,    _ => True
  | (stag, line) :: feed, jail, w =>
    stag = 0 ∨ ∃ jail' w', jail.consume inet filter now stag line w = .ok (jail', w') ∧
    (∀ addr ∈ found jail filter line, Ipaddr.Valid inet addr →
      Updates inet now addr jail.ipaddrs jail'.ipaddrs) ∧
    ((∀ addr ∈ found jail filter line, ¬Ipaddr.Valid inet addr) → jail'.ipaddrs = jail.ipaddrs) ∧
    Orderly inet filter now feed jail' w'

theorem valid_take_iff : Ipaddr.Valid inet (line.take IPADDR_MAX) ↔ Ipaddr.Valid inet line := by
  by_cases hl : line.length < IPADDR_MAX
  case pos => rw [List.take_of_length_le (Nat.le_of_lt hl)]
  case neg =>
    constructor <;> intro h
    · have := h.length_lt
      simp only [List.length_take] at this
      omega
    · exact absurd h.length_lt hl

theorem track_of_valid {l : List Ipaddr} {addr : CString} (hv : AllValid inet l)
    (h : Ipaddr.Valid inet addr) :
    ∃ p, track inet l addr = .ok p ∧ p.here.text = addr ∧
    (p.list = l ∨ (Ipaddr.create inet addr = some p.here ∧ addr ∉ Addrlist.texts l ∧
      p = ⟨[], p.here, l⟩)) := by
  cases hl : Addrlist.lookup l addr
  case some p =>
    exact ⟨p, by simp [track, hl], Addrlist.lookup_text hl hv.length_lt,
      .inl (Addrlist.lookup_list hl)⟩
  case none =>
    obtain ⟨new, hn⟩ := h.exists_create
    refine ⟨⟨[], new, l⟩, by simp [track, hl, h.length_lt, hn, Addrlist.append],
      Ipaddr.text_create hn, .inr ⟨hn, fun hm => ?_, rfl⟩⟩
    obtain ⟨_, ha, he⟩ := Addrlist.mem_texts_iff.mp hm
    exact Addrlist.text_ne_of_lookup hl ha he

theorem valid_of_track {l : List Ipaddr} {addr : CString} {p : Place Ipaddr} (hv : AllValid inet l)
    (h : track inet l addr = .ok p) : Ipaddr.Valid inet addr := by
  obtain hl | ⟨_, hc, _⟩ := track_ok h
  case inr => exact Ipaddr.valid_of_create hc
  case inl =>
    have ht := Addrlist.lookup_text hl hv.length_lt
    exact ht ▸ hv _ (Addrlist.mem_texts_iff.mpr ⟨_, Addrlist.lookup_list hl ▸ p.here_mem, rfl⟩)

theorem updates_observe {l : List Ipaddr} {hit : Hit} {p : Place Ipaddr} (ht : p.here.text = hit.text)
    (hp : p.list = l ∨ (Ipaddr.create inet hit.text = some p.here ∧ hit.text ∉ Addrlist.texts l ∧
      p = ⟨[], p.here, l⟩)) :
    Updates inet now hit.text l (jail.observe p now stag hit w).1.ipaddrs := by
  obtain ⟨a, hu, hn, ⟨_, _, ho, _⟩ | ⟨_, _, _, ho, _⟩⟩ := observe_eq jail p now stag hit w
  all_goals rw [ho]
  case inl => exact ⟨p, a, hp, ht, rfl, hu.text.trans ht, hu.binary, hn⟩
  case inr => exact ⟨p, banned jail.settings a, hp, ht, rfl, hu.text.trans ht, hu.binary, hn⟩

-- What the match buffer holds is an address exactly if what the line hands over is one.
theorem addressed_iff :
    addressed inet jail filter line ↔
    ∃ hit, jail.capture filter line = .ok hit ∧ ∀ h ∈ hit, Ipaddr.Valid inet h.text := by
  cases hf : jail.settings.flags.hasFilter
  case false => simp [addressed, capture, hf, valid_take_iff]
  case true  =>
    cases hl : filter line
    case error  => simp [addressed, capture, hf, hl, Except.map]
    case ok hit =>
      cases hit
      case none     => simp [addressed, capture, hf, hl, Except.map]
      case some hit => by_cases hz : hit.ftag = 0 <;> simp [addressed, capture, hf, hl, hz, Except.map]

theorem found_eq {hit : Option Hit} (h : jail.capture filter line = .ok hit)
    (hv : ∀ h ∈ hit, Ipaddr.Valid inet h.text) : found jail filter line = hit.map (·.text) := by
  cases hf : jail.settings.flags.hasFilter
  case false =>
    simp only [capture, hf, Bool.false_eq_true, if_false, Except.ok.injEq] at h
    obtain rfl := h
    have hl := (valid_take_iff.mp (hv _ rfl)).length_lt
    simp [found, hf, List.take_of_length_le (Nat.le_of_lt hl)]
  case true =>
    cases hl : filter line
    case error  => simp [capture, hf, hl, Except.map] at h
    case ok hit =>
      simp only [capture, hf, hl, if_true, Except.map, Except.ok.injEq] at h
      obtain rfl := h
      cases hit
      case none     => simp [found, hf, hl]
      case some hit => by_cases hz : hit.ftag = 0 <;> simp [found, hf, hl, hz]

theorem consume_of_addressed (now : Int) (stag : UInt32) (w : World β)
    (hv : AllValid inet jail.ipaddrs) (h : addressed inet jail filter line) :
    ∃ jail' w', jail.consume inet filter now stag line w = .ok (jail', w') ∧
    (∀ addr ∈ found jail filter line, Updates inet now addr jail.ipaddrs jail'.ipaddrs) ∧
    ((∀ addr ∈ found jail filter line, ¬Ipaddr.Valid inet addr) → jail'.ipaddrs = jail.ipaddrs) := by
  have ⟨hit, hc, ha⟩ := addressed_iff.mp h
  rw [found_eq hc ha]
  cases hit
  case none     => exact ⟨jail, w, consume_none hc, by simp⟩
  case some hit =>
    have ⟨p, ht, hp, hl⟩ := track_of_valid hv (ha hit rfl)
    refine ⟨_, _, consume_some hc ht, ?_, fun hn => absurd (ha hit rfl) (hn hit.text rfl)⟩
    rintro _ ⟨⟩
    exact updates_observe hp hl

theorem addressed_of_consume {r : Jail × World β} (hv : AllValid inet jail.ipaddrs)
    (h : jail.consume inet filter now stag line w = .ok r) : addressed inet jail filter line := by
  refine addressed_iff.mpr ?_
  obtain ⟨hc, _⟩ | ⟨hit, p, hc, hp, _⟩ := consume_ok h
  case inl => exact ⟨none, hc, by simp⟩
  case inr => exact ⟨some hit, hc, by simpa using valid_of_track hv hp⟩

theorem orderly_iff (now : Int) (w : World β) {feed : List (UInt32 × CString)} (hv : AllValid inet jail.ipaddrs) :
    Orderly inet filter now feed jail w ↔
    ∀ line ∈ (feed.takeWhile (·.1 ≠ 0)).map (·.2), addressed inet jail filter line := by
  induction feed generalizing jail w
  case nil            => simp [Orderly]
  case cons l feed hi =>
    obtain ⟨stag, line⟩ := l
    by_cases hz : stag = 0
    case pos => simp [Orderly, hz]
    case neg =>
      have hs : ∀ {jail' w'}, jail.consume inet filter now stag line w = .ok (jail', w') →
          AllValid inet jail'.ipaddrs ∧ ∀ line, addressed inet jail' filter line ↔
            addressed inet jail filter line := fun hc =>
        ⟨(consume_moves hc).invariant (fun _ _ m => AllValid.move m) hv, fun line => by
          simp only [addressed, (consume_frame hc).settings]⟩
      simp only [Orderly, hz, false_or, List.takeWhile_cons, ne_eq, not_false_eq_true,
        decide_true, if_true, List.map_cons, List.forall_mem_cons]
      constructor
      · rintro ⟨jail', w', hc, _, _, ho⟩
        have ⟨hv', ha⟩ := hs hc
        exact ⟨addressed_of_consume hv hc, by simpa only [ha] using (hi _ hv').mp ho⟩
      · rintro ⟨h, ht⟩
        have ⟨jail', w', hc, hu⟩ := consume_of_addressed now stag w hv h
        have ⟨hv', ha⟩ := hs hc
        exact ⟨jail', w', hc, fun addr hm _ => hu.1 addr hm, hu.2,
          (hi _ hv').mpr (by simpa only [ha] using ht)⟩

theorem poll_of_orderly {feed : List (UInt32 × CString)} (h : Orderly inet filter now feed jail w) :
    ∃ r, poll inet filter now feed jail w = .ok r := by
  induction feed generalizing jail w
  case nil            => exact ⟨_, rfl⟩
  case cons l feed hi =>
    obtain ⟨stag, line⟩ := l
    by_cases hz : stag = 0
    case pos => exact ⟨_, by simp only [poll, hz, if_true]; rfl⟩
    case neg =>
      obtain ⟨jail', w', hc, _, _, ho⟩ := h.resolve_left hz
      obtain ⟨r, hr⟩ := hi ho
      exact ⟨r, by simp only [poll, hz, if_false, hc, bind, Except.bind, hr]⟩

-- The pass comes to its end, and each of its lines has the effect it should have.
def Sound (inet : Inet) (filter : Filter) (now : Int) (feed : List (UInt32 × CString))
    (fate : SaveFate) (jail : Jail) (w : World β) : Prop :=
  (∃ r, process inet filter now feed fate jail w = .ok r) ∧
  (jail.settings.flags.hasSource → Orderly inet filter now feed jail (w.call Backend.ping).2)

theorem sound_iff {feed : List (UInt32 × CString)} {fate : SaveFate}
    (hv : AllValid inet jail.ipaddrs) :
    Sound inet filter now feed fate jail w ↔
    ∀ line ∈ handed jail feed, addressed inet jail filter line := by
  cases hs : jail.settings.flags.hasSource
  case false => simp [Sound, handed, hs, process, gather, bind, Except.bind, pure, Except.pure]
  case true  =>
    simp only [Sound, handed, hs, if_true, forall_const, orderly_iff _ _ hv, and_iff_right_iff_imp]
    intro h
    obtain ⟨r, hr⟩ := poll_of_orderly ((orderly_iff now (w.call Backend.ping).2 hv).mpr h)
    exact ⟨_, by simp only [process, gather, hs, if_true, hr]; rfl⟩

-- A pass is sound in exactly the case that every line handed over carries an address.
theorem process_sound_iff {env : Env} {s : System β}
    (h : Transition.Reachable (fun s : System β => s.up = false) (System.Step env) s) (hu : s.up)
    (filter : Filter) (now : Int) (feed : List (UInt32 × CString)) (fate : SaveFate) :
    Sound env.inet filter now feed fate s.jail s.world ↔
    ∀ line ∈ handed s.jail feed, addressed env.inet s.jail filter line :=
  sound_iff (System.wellformed_of_reachable h hu).2

section Example

def sshFilter : Filter :=
  Filters.preg (fun _ _ line => some (5, line.length)) IPADDR_MAX [⟨"from <HOST>$".toList, 1, 10, false⟩]

def sshStarted : System Blocklist :=
  (System.sshRun [] [.start System.sshParams 1000]).get (by decide)

theorem sshStarted_reachable :
    Transition.Reachable (fun s : System Blocklist => s.up = false) (System.Step System.quadEnv)
      sshStarted :=
  ⟨_, _, rfl, .of_replay (Option.some_get _).symm⟩

theorem process_sound_valid :
    Sound .quad sshFilter 1001 [(7, "from 192.0.2.7".toList), (7, "from 192.0.2.7".toList)]
      .complete sshStarted.jail sshStarted.world :=
  (process_sound_iff sshStarted_reachable (by decide) sshFilter 1001 _ .complete).mpr (by decide)

-- The octet above 255 is matched by the filter, but no record can be created for it.
theorem process_not_sound :
    Transition.Reachable (fun s : System Blocklist => s.up = false) (System.Step System.quadEnv) sshStarted ∧
    sshStarted.up ∧
    ¬Sound .quad sshFilter 1001 [(7, "from 300.1.1.1".toList)] .complete
      sshStarted.jail sshStarted.world := by
  refine ⟨sshStarted_reachable, by decide, fun h => ?_⟩
  have ⟨_, hr⟩ := h.1
  have : (process .quad sshFilter 1001 [(7, "from 300.1.1.1".toList)] .complete
    sshStarted.jail sshStarted.world).toBool = false := by decide
  rw [hr] at this
  cases this

end Example
end F2b.Jail
