import F2b.Csocket.Slots
import F2b.Csocket.Theorems.Grammar

-- The handlers of a connection find a token in each slot that they read.

namespace F2b

open Deref

namespace Cmd

def Holds (line : CString) (cmd : Cmd) (i : Nat) : Prop :=
  ∃ t ∈ tokens line, t ≠ [] ∧ cmd.args[i]? = some t

variable {line : CString} {cmd : Cmd} {i : Nat}

theorem tokens_dropWhile (line : CString) :
    tokens (line.dropWhile CString.isspace) = Words.dropWords CString.isspace (tokens line) :=
  Words.words_dropWhile (fun _ h => by simp [CString.isspace, h]) line

theorem holds_of_create (h : create line = some cmd) (h₁ : 1 ≤ i) (hi : i < cmd.args.length) : Holds line cmd i := by
  obtain ⟨j, rfl⟩ := Nat.exists_eq_add_of_le' h₁
  have ha := args_of_create h
  rw [tokens_dropWhile] at ha
  have ht : cmd.args[j + 1] ∈ cmd.args.tail := by
    rw [← List.getElem_tail (by rw [List.length_tail]; omega)]
    exact List.getElem_mem _
  have hm : cmd.args[j + 1] ∈ tokens line := by
    have := Words.tail_dropWords_suffix CString.isspace (tokens line)
    rw [← ha] at this
    exact this.subset ht
  exact ⟨_, hm, (Words.mem_words hm).1, List.getElem?_eq_getElem hi⟩

theorem lt_length_of_create (h : create line = some cmd)
    (hi : ∀ d ∈ commands, d.type = cmd.type → i < d.tokens.length) :
    i < cmd.args.length := by
  have ⟨⟨d, hd, ht, hf, _⟩, ha, _⟩ := create_eq_some_iff.mp h
  rw [ha, ← List.Forall₂.length_eq hf]
  exact hi d hd ht

theorem safe_arg (h : create line = some cmd) (h₁ : 1 ≤ i)
    (hi : ∀ d ∈ commands, d.type = cmd.type → i < d.tokens.length) :
    Safe (Holds line cmd) (cmd.arg i) (· = cmd.args.getD i []) := by
  have hl := lt_length_of_create h hi
  refine safe_read (List.getElem?_eq_getElem hl) (holds_of_create h h₁ hl) ?_
  rw [List.getD_eq_getElem?_getD, List.getElem?_eq_getElem hl, Option.getD_some]

end Cmd

namespace Conn.Slots

variable {md5 : CString → CString} {line nonce : CString} {cmd : Cmd} {conn : Conn}

theorem safe_credentials (h : Cmd.create line = some cmd) (ht : cmd.type = .auth) :
    Safe (cmd.Holds line) (credentials md5 conn cmd) (· = conn.credentials md5 cmd) := by
  have h₁ := Cmd.safe_arg h (i := 1) (Nat.le_refl 1) (by rw [ht]; decide)
  have h₂ := Cmd.safe_arg h (i := 2) (by decide) (by rw [ht]; decide)
  rw [credentials, Conn.credentials]
  refine h₁.bind_eq ?_
  split
  case isTrue  => exact h₂.bind_eq (safe_pure rfl)
  case isFalse =>
    refine h₁.bind_eq ?_
    split
    case isTrue  => exact h₂.bind_eq (safe_pure rfl)
    case isFalse => exact safe_pure rfl

theorem safe_checkAuth (h : Cmd.create line = some cmd) (ht : cmd.type = .auth) :
    Safe (cmd.Holds line) (checkAuth md5 conn cmd nonce) (· = conn.checkAuth md5 cmd nonce) := by
  rw [checkAuth, Conn.checkAuth]
  split
  case isTrue  => exact safe_pure rfl
  case isFalse =>
    refine (safe_credentials h ht).bind_eq ?_
    split
    case isTrue  => exact safe_pure rfl
    case isFalse => exact safe_pure rfl

theorem safe_logEvents (h : Cmd.create line = some cmd) (ht : cmd.type = .logEvents) :
    Safe (cmd.Holds line) (logEvents conn cmd) (· = conn.logEvents cmd) := by
  rw [logEvents, Conn.logEvents]
  refine (Cmd.safe_arg h (i := 2) (by decide) (by rw [ht]; decide)).bind_eq ?_
  simp only []
  split
  case isTrue  => exact safe_pure rfl
  case isFalse => exact safe_pure rfl

variable {δ : Type} {cb : Cmd → δ → Deref (CString × δ)} {cb' : Cmd → δ → CString × δ} {d : δ}

-- Whatever the line is, the handlers do what the model without slots says.
theorem safe_handle (h : ∀ cmd, Cmd.create line = some cmd → Safe (cmd.Holds line) (cb cmd d) (· = cb' cmd d)) :
    Safe (fun i => ∃ cmd, Cmd.create line = some cmd ∧ cmd.Holds line i) (handle md5 cb conn line nonce d)
      (· = conn.handle md5 cb' line nonce d) := by
  rw [handle, Conn.handle]
  cases hc : Cmd.create line
  case none     =>
    simp only []
    split
    case isTrue  => exact safe_pure rfl
    case isFalse => exact safe_pure rfl
  case some cmd =>
    have hp : ∀ i, cmd.Holds line i → ∃ cmd', some cmd = some cmd' ∧ cmd'.Holds line i := fun i hi => ⟨cmd, rfl, hi⟩
    simp only []
    split_ifs with ha he ho
    case pos => exact ((safe_checkAuth hc ha).mono hp fun _ h => h).bind_eq (safe_pure rfl)
    case pos => exact ((safe_logEvents hc he).mono hp fun _ h => h).bind_eq (safe_pure rfl)
    case pos => exact ((h cmd hc).mono hp fun _ h => h).bind_eq (safe_pure rfl)
    case neg => exact safe_pure rfl

end Conn.Slots
end F2b
