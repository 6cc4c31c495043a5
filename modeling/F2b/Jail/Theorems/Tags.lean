import F2b.Backends.Blocklist
import F2b.Filters.Theorems.Scores
import F2b.Jail.Moves
import F2b.Sources.Theorems.Tags

-- The tags of lines and matches at the jail that reads them, where 0 stands for no data and for no match.

namespace F2b.Filters

variable {σ : Type} {m : Engine σ}

-- A module after some calls of its functions.
inductive Engine.Built (m : Engine σ) : Cfg σ → Prop
  | create : Built m ⟨m.create, [], false⟩
  | config {cfg} (param value : CString) :
    Built m cfg → Built m { cfg with opts := (m.config cfg.opts param value).2 }
  | append {cfg} (pattern : CString) : Built m cfg → Built m (m.append cfg pattern).2
  | flush {cfg} : Built m cfg → Built m (m.flush cfg)

-- The pattern has been accepted under the text, whose hash is its tag.
def Engine.Accepts (m : Engine σ) (pattern : CString) (r : Regexp) : Prop :=
  ∃ o, m.regexp o pattern = some r

theorem Engine.Built.accepts {cfg : Cfg σ} (h : m.Built cfg) : ∀ r ∈ cfg.regexps, ∃ pattern, m.Accepts pattern r := by
  induction h
  case create        => simp
  case config hi     => exact hi
  case flush         => simp [Engine.flush]
  case append cfg pattern _ hi =>
    rw [Engine.append]
    cases hr : m.regexp cfg.opts pattern
    case none   => exact hi
    case some r =>
      intro r' hm
      obtain hm | hm := List.mem_append.mp hm
      case inl => exact hi r' hm
      case inr => exact ⟨pattern, cfg.opts, List.mem_singleton.mp hm ▸ hr⟩

theorem Engine.Accepts.ftag {pattern : CString} {r : Regexp} (h : m.Accepts pattern r) :
    r.ftag = fnv32aStr pattern FNV1_32A_INIT := by
  have ⟨_, h⟩ := h
  rw [(regexp_eq_some_iff.mp h).2]

end F2b.Filters

namespace F2b.Jail

variable {β : Type} [Backend β] (inet : Inet) (w : World β)

-- Whatever a jail is like and has read before, it takes the line as a line.
def Handed (line : UInt32 × CString) : Prop :=
  ∀ filter now feed jail, poll inet filter now (line :: feed) jail w =
    (jail.consume inet filter now line.1 line.2 w).bind fun r => poll inet filter now feed r.1 r.2

variable {inet w}

theorem found_observe (jail : Jail) (p : Place Ipaddr) (now : Int) (stag : UInt32) (hit : Hit) (w : World β) :
    (jail.observe p now stag hit w).1.stats.found = jail.stats.found + 1 := by
  simp only [observe, ban]
  split_ifs <;> simp

theorem found_consume {jail : Jail} {filter : Filter} {now : Int} {stag : UInt32} {line : CString} {r : Jail × World β}
    (hf : jail.settings.flags.hasFilter = false) (h : jail.consume inet filter now stag line w = .ok r) :
    r.1.stats.found = jail.stats.found + 1 := by
  obtain ⟨hc, _⟩ | ⟨hit, p, _, _, he⟩ := consume_ok h
  case inl => simp [capture, hf] at hc
  case inr => exact congrArg (·.1.stats.found) he ▸ found_observe ..

def bare : Jail where
  name     := []
  settings := .builtin
  stats    := ⟨0, 0, 0⟩
  sfile    := ⟨[], false⟩
  ipaddrs  := []

theorem handed_iff {line : UInt32 × CString} : Handed inet w line ↔ line.1 ≠ 0 := by
  obtain ⟨stag, line⟩ := line
  constructor
  case mp  =>
    rintro h rfl
    have h := h (fun _ => .ok none) 0 [] bare
    rw [poll, if_pos rfl] at h
    cases hc : bare.consume inet (fun _ => .ok none) 0 0 line w
    case error => rw [hc] at h; cases h
    case ok r  =>
      rw [hc] at h
      have hr : r = (bare, w) := (Except.ok.inj h).symm
      have := found_consume rfl hc
      simp [hr] at this
  case mpr =>
    intro h _ _ _ _
    rw [poll, if_neg h]
    rfl

theorem capture_eq_iff {jail : Jail} {filter : Filter} {line : CString} {hit : Hit}
    (hf : jail.settings.flags.hasFilter) (h : filter line = .ok (some hit)) :
    jail.capture filter line = .ok (some hit) ↔ hit.ftag ≠ 0 := by
  rw [capture, if_pos hf, h]
  by_cases ht : hit.ftag = 0 <;> simp [Except.map, ht]

section Reports

open Files (Call Started Step next fileGetline)
open Filters (Library Cfg)

variable {cfg₀ cfg cfg' : Files.Config} {calls : List Call} {c : Call} {l : UInt32 × CString}
variable {lib : Library} {mod : Cfg lib.Opts} {bufSize : Nat} {line : CString} {hit : Hit} {jail : Jail}

-- What has been read from a file is handed over, and what has matched a pattern is reported, unless the
-- path of the file or the text of the pattern ends in its hash.
theorem tagged_iff (hs : Started cfg₀) (e : Transition.Steps Step cfg₀ calls cfg)
    (hn : next c.fs c.bufsize c.reset cfg = .ok (some l, cfg')) (hb : lib.engine.Built mod)
    (hf : jail.settings.flags.hasFilter) (hm : lib.filter bufSize mod.regexps line = .ok (some hit)) :
    (∃ before file, file ∈ cfg'.files ∧ fileGetline c.fs c.bufsize before = (some l.2, file) ∧
      (l.1 ≠ 0 ∧ Handed inet w l ↔ ¬EndsInHash file.path)) ∧
    (∃ pattern r, r ∈ mod.regexps ∧ lib.engine.Accepts pattern r ∧ lib.filter bufSize [r] line = .ok (some hit) ∧
      (hit.ftag ≠ 0 ∧ jail.capture (lib.filter bufSize mod.regexps) line = .ok (some hit) ↔ ¬EndsInHash pattern)) := by
  constructor
  case left  =>
    have ⟨before, file, hf, _, hg, ht⟩ := Files.taken_of_next hs e hn
    refine ⟨before, file, hf, hg, ?_⟩
    rw [handed_iff, and_self, ht, ne_eq, fnv32aStr_eq_zero_iff]
  case right =>
    have ⟨r, hr, hh⟩ := Filters.exists_of_filter hm
    have ⟨pattern, ha⟩ := hb.accepts r hr
    refine ⟨pattern, r, hr, ha, hh, ?_⟩
    rw [capture_eq_iff hf hm, and_self, (Filters.tag_score_of_filter hh).1, ha.ftag, ne_eq, fnv32aStr_eq_zero_iff]

end Reports

section Example

open Files (plain watching polled Started Step next)
open Filters (Cfg Library)

def single (path data : CString) : Fs where
  inode _     := plain data
  lookup path' := if path' = path then some ⟨0, 1⟩ else none
  glob _      := some [path]

-- A line with an address in the place of the token that a pattern ends with.
def hostLine (pattern : CString) : CString :=
  pattern.take (pattern.length - 6) ++ "192.0.2.1".toList

def hosts : Filters.Library :=
  .preg (fun _ _ => true) fun pattern _ line =>
    if line = hostLine pattern then some (pattern.length - 6, line.length) else none

def hostFilter (pattern : CString) : Cfg hosts.Opts :=
  (hosts.engine.append ⟨hosts.engine.create, [], false⟩ pattern).2

def hostHit (pattern : CString) : Hit :=
  ⟨fnv32aStr pattern FNV1_32A_INIT, "192.0.2.1".toList, MATCH_DEFSCORE⟩

def authLog : CString :=
  "/var/log/auth.log".toList

def trapLog : CString :=
  "/var/log/qwwthhh.log".toList

def trapPattern : CString :=
  "dlgcgoe from <HOST>".toList

def world : World Blocklist :=
  ⟨⟨[], [], []⟩, [], fun _ => none⟩

theorem hash_log : fnv32aStr trapLog FNV1_32A_INIT = 0 := by
  decide +kernel

theorem hash_pattern : fnv32aStr trapPattern FNV1_32A_INIT = 0 := by
  decide +kernel

def filtered : Jail :=
  { bare with settings.flags.hasFilter := true }

-- What happens to a line of the file, and to one that the pattern matches.
theorem tagged_iff_auth :
    (∃ before file, file ∈ (polled (Files.poll (single authLog "x\n".toList)) (watching (single authLog []))).files ∧
      Files.fileGetline (single authLog "x\n".toList) 64 before = (some "x".toList, file) ∧
      (fnv32aStr authLog FNV1_32A_INIT ≠ 0 ∧
        Handed Inet.quad world (fnv32aStr authLog FNV1_32A_INIT, "x".toList) ↔ ¬EndsInHash file.path)) ∧
    (∃ pattern r, r ∈ (hostFilter "from <HOST>".toList).regexps ∧ hosts.engine.Accepts pattern r ∧
      hosts.filter 64 [r] "from 192.0.2.1".toList = .ok (some (hostHit "from <HOST>".toList)) ∧
      ((hostHit "from <HOST>".toList).ftag ≠ 0 ∧
        filtered.capture (hosts.filter 64 (hostFilter "from <HOST>".toList).regexps) "from 192.0.2.1".toList =
        .ok (some (hostHit "from <HOST>".toList)) ↔ ¬EndsInHash pattern)) :=
  tagged_iff (c := Files.poll (single authLog "x\n".toList)) ⟨single authLog [], "*".toList, rfl⟩ .refl rfl
    (.append _ .create) rfl rfl

-- A path and a pattern that end in their hashes.
theorem not_always_tagged :
    ¬(∀ cfg₀ calls cfg (c : Files.Call) l cfg', Started cfg₀ → Transition.Steps Step cfg₀ calls cfg →
      next c.fs c.bufsize c.reset cfg = .ok (some l, cfg') → l.1 ≠ 0 ∧ Handed Inet.quad world l) ∧
    ¬(∀ (lib : Library) mod bufSize line hit (jail : Jail), lib.engine.Built mod → jail.settings.flags.hasFilter →
      lib.filter bufSize mod.regexps line = .ok (some hit) →
      hit.ftag ≠ 0 ∧ jail.capture (lib.filter bufSize mod.regexps) line = .ok (some hit)) := by
  constructor
  case left  =>
    intro h
    have := h (watching (single trapLog [])) [] _ (Files.poll (single trapLog "x\n".toList)) _ _
      ⟨single trapLog [], "*".toList, rfl⟩ .refl rfl
    exact this.1 hash_log
  case right =>
    intro h
    have := h hosts (hostFilter trapPattern) 64 "dlgcgoe from 192.0.2.1".toList (hostHit trapPattern) filtered
      (.append _ .create) rfl rfl
    exact this.1 hash_pattern

end Example
end F2b.Jail
