import Secd.Proofs.Alignment
import Secd.Proofs.Jumps
import Secd.Proofs.Listings

/-!
What a listing says of a step. A listing and a machine divide code into instructions each in its own
way: the one takes as many words as the table of operands says, at once, and the other fetches them
one by one, between its pops and pushes. At the address of an entry they agree, whatever else the
machine holds:

      entry              the step at its address
      .word, no opcode   fails as an unknown opcode
      .word, cut short   fails for another reason
      op with operands   finds all of its words, and goes on behind them or where they say
-/

namespace Secd

open Effect

namespace Listing

/-! ### The words of an entry -/

theorem splitExactly?_eq_none_iff {n : Nat} {words : List Word} :
    splitExactly? n words = none ↔ words.length < n := by
  induction n generalizing words with
  | zero => simp [splitExactly?]
  | succ n ih => cases words <;> simp [splitExactly?, ih]

/-- An entry and the words that it was decoded from, at its place in the code. -/
inductive Covers (code : Code) (e : Entry) : Prop where
  /-- Data that encodes no opcode. -/
  | unknown {word : Word} (isData : e.op = none) (operands : e.operands = [word])
      (found : code.fetch? e.address = some word) (noOpcode : Opcode.ofWord? word = none)
  /-- Data that is an opcode without all of its operands. -/
  | cut {op : Opcode} (isData : e.op = none) (operands : e.operands = [op.word])
      (found : code.fetch? e.address = some op.word)
      (short : code.size ≤ e.address + op.operandCount)
  /-- An opcode with its operands. -/
  | whole {op : Opcode} (isOp : e.op = some op) (found : code.fetch? e.address = some op.word)
      (length : e.operands.length = op.operandCount)
      (operands : ∀ j < op.operandCount, code.fetch? (e.address + 1 + j) = e.operands[j]?)

theorem Lists.exists_decode {address : Nat} {words : List Word} {entries : List Entry} {e : Entry}
    (lists : Lists address words entries) (mem : e ∈ entries) :
    ∃ front word rest rest', words = front ++ word :: rest ∧
      decode (address + front.length) word rest = (e, rest') := by
  induction lists with
  | nil => cases mem
  | @cons address word words rest first entries decoded more ih =>
    rcases List.mem_cons.1 mem with rfl | mem
    · exact ⟨[], word, words, rest, rfl, decoded⟩
    · obtain ⟨front, word', rest', rest'', rfl, decoded'⟩ := ih mem
      refine ⟨first.words ++ front, word', rest', rest'', ?_, ?_⟩
      · rw [List.append_assoc, (decode_spec decoded).2.2]
      · rwa [List.length_append, ← Nat.add_assoc]

/-- Every entry of a listing covers the words at its address. -/
theorem covers_of_mem {code : Code} {e : Entry} (listed : e ∈ ofWords code.words.toList) :
    Covers code e := by
  obtain ⟨front, word, rest, rest', parts, decoded⟩ :=
    (lists_ofWords code.words.toList).exists_decode listed
  rw [Nat.zero_add] at decoded
  have here : code.fetch? front.length = some word := Code.fetch?_append parts 0
  have size : code.size = front.length + (rest.length + 1) := by
    rw [Code.size, ← Array.length_toList, parts, List.length_append, List.length_cons]
  unfold decode at decoded
  split at decoded
  · rename_i noOpcode
    cases decoded
    exact .unknown rfl rfl here noOpcode
  · rename_i op isOpcode
    obtain rfl := Opcode.ofWord?_eq_some_iff.1 isOpcode
    split at decoded
    · rename_i tooFew
      have short := splitExactly?_eq_none_iff.1 tooFew
      cases decoded
      refine .cut rfl rfl here ?_
      change code.size ≤ front.length + op.operandCount
      omega
    · rename_i operands rest'' found
      obtain ⟨rfl, length⟩ := splitExactly?_eq_some_iff.1 found
      cases decoded
      refine .whole rfl here length fun j inside => ?_
      change code.fetch? (front.length + 1 + j) = operands[j]?
      rw [Nat.add_assoc, Nat.add_comm 1, Code.fetch?_append parts, List.getElem?_cons_succ,
        List.getElem?_append_left (length.symm ▸ inside)]

end Listing

namespace Machine

variable {code : Code} {m m' : Machine} {op : Opcode} {operands : List Word}

/-! ### How instructions fail -/

/-- The fault is no unknown opcode, and an address outside the code only if all operands have been
fetched and one of them is that address. -/
structure Excusable (code : Code) (operands : List Word) (behind : Nat) (fault : Fault)
    (m' : Machine) : Prop where
  opcode : ∀ word, fault ≠ .badOpcode word
  target : ∀ address length, fault = .outOfCode address length →
    m'.pc = behind ∧ ∃ target ∈ operands, code.address target = .error fault

variable {behind : Nat} {word : Word} {fault : Fault}

/-- With all of its operands no instruction misses a word. -/
theorem Misses.excusable (misses : Misses code m op fault m')
    (length : operands.length = op.operandCount)
    (there : ∀ j < op.operandCount, code.fetch? (m.pc + 1 + j) = operands[j]?) :
    Excusable code operands (m.pc + 1 + op.operandCount) fault m' where
  opcode := misses.ne_badOpcode
  target := by
    rintro address size rfl
    cases misses with
    | other elsewhere => cases elsewhere
    | operand fewer missing =>
      rw [there _ fewer, List.getElem?_eq_none_iff, length] at missing
      exact absurd fewer (Nat.not_lt.2 missing)
    | @target j word _ fetched operand outside pc =>
      rw [there j fetched] at operand
      exact ⟨pc, word, List.mem_of_getElem? operand, outside⟩

/-! ### Steps at entries -/

/-- The step fails, as the data at its address says: as an unknown opcode, if the word is none, and
in another way, if it is an opcode without all of its operands. -/
structure Refuses (code : Code) (m : Machine) (word : Word) (trap : Trap) : Prop where
  found : code.fetch? m.pc = some word
  unknown : Opcode.ofWord? word = none → trap.fault = .badOpcode word
  cut : Opcode.ofWord? word ≠ none → ∀ word', trap.fault ≠ .badOpcode word'

/-- The step succeeds and goes where the entry says. -/
structure Obeys (address : Nat) (op : Opcode) (operands : List Word) (m m' : Machine) : Prop where
  onward : op.isPlain = true → m'.pc = address + 1 + op.operandCount
  branch : op = .sel → ∃ (rest : Array Value) (n onZero onNonzero : Word),
    m.stack.items = rest.push (.int n) ∧ operands = [onZero, onNonzero] ∧
    (m'.pc : Int) = (if n = 0 then onZero else onNonzero).toInt
  frame : op = .sel ∨ op = .ap → ∃ frame, m'.dump.items = m.dump.items.push frame ∧
    frame.resume = address + 1 + op.operandCount

theorem Transfers.obeys (transfers : Transfers code m m' op)
    (length : operands.length = op.operandCount)
    (there : ∀ j < op.operandCount, code.fetch? (m.pc + 1 + j) = operands[j]?) :
    Obeys m.pc op operands m m' := by
  cases transfers with
  | onward plain pc env dump =>
    refine ⟨fun _ => pc, ?_, ?_⟩
    · rintro rfl
      cases plain
    · rintro (rfl | rfl) <;> cases plain
  | @sel n onZero onNonzero rest condition zero nonzero target env items =>
    refine ⟨nofun, fun _ => ?_, fun _ => ⟨_, items, rfl⟩⟩
    refine ⟨rest, n, onZero, onNonzero, condition, ?_, ?_⟩
    · obtain ⟨t, f, rfl⟩ := List.length_eq_two.1 length
      rw [← Option.some.inj (zero.symm.trans (there 0 Nat.zero_lt_two)),
        ← Option.some.inj (nonzero.symm.trans (there 1 Nat.one_lt_two))]
    · exact (Code.address_eq_ok target).2.symm
  | ap _ _ _ items => exact ⟨nofun, nofun, fun _ => ⟨_, items, rfl⟩⟩
  | rtn | join => exact ⟨nofun, nofun, nofun⟩

/-- At a word that encodes no opcode a step fails for that. -/
theorem refuses_unknown (found : code.fetch? m.pc = some word)
    (noOpcode : Opcode.ofWord? word = none) :
    Ends (fun _ _ => False) (fun trap _ => Refuses code m word trap) (step code m) := by
  rw [ends_step]
  refine ⟨fun op there => ?_, fun word' there _ => ?_, fun missing => ?_⟩
  · rw [Option.some.inj (found.symm.trans there), Opcode.ofWord?_word] at noOpcode
    cases noOpcode
  · obtain rfl := Option.some.inj (found.symm.trans there)
    exact ⟨found, fun _ => rfl, fun isOpcode => absurd noOpcode isOpcode⟩
  · exact absurd (found.symm.trans missing) (Option.some_ne_none _)

/-- Without all of its operands an instruction fails, and not for its opcode. -/
theorem refuses_cut (found : code.fetch? m.pc = some op.word)
    (short : code.size ≤ m.pc + op.operandCount) :
    Ends (fun _ _ => False) (fun trap _ => Refuses code m op.word trap) (step code m) := by
  refine ends_step_of_found found ((ends_exec found).imp ?_ ?_)
  · intro result m' done
    exact absurd (done.fetched (Code.lt_size_of_fetch? found)) (Nat.not_lt.2 short)
  · intro fault m' fails
    refine ⟨found, fun noOpcode => ?_, fun _ => fails.misses.ne_badOpcode⟩
    rw [Opcode.ofWord?_word] at noOpcode
    cases noOpcode

/-- With all of its operands an instruction goes where they say, or fails for another reason. -/
theorem obeys_step (found : code.fetch? m.pc = some op.word)
    (length : operands.length = op.operandCount)
    (there : ∀ j < op.operandCount, code.fetch? (m.pc + 1 + j) = operands[j]?) :
    Ends (fun _ m' => Obeys m.pc op operands m m')
      (fun trap m' => Excusable code operands (m.pc + 1 + op.operandCount) trap.fault m')
      (step code m) := by
  refine ends_step_of_found found ((ends_exec found).imp ?_ ?_)
  · exact fun _ _ done => (transfers_of_completes done).obeys length there
  · exact fun _ _ fails => fails.misses.excusable length there

/-- A machine and a listing divide the code alike. At an entry of data every step fails; at an
opcode with its operands no word is missing, and a step that succeeds goes where the entry says. -/
theorem step_at_entry {e : Listing.Entry} (listed : e ∈ Listing.ofWords code.words.toList)
    (here : m.pc = e.address) :
    (e.op = none → ∃ word, e.operands = [word] ∧
      Ends (fun _ _ => False) (fun trap _ => Refuses code m word trap) (step code m)) ∧
    ∀ op, e.op = some op →
      Ends (fun _ m' => Obeys e.address op e.operands m m')
        (fun trap m' => Excusable code e.operands (e.address + 1 + op.operandCount) trap.fault m')
        (step code m) := by
  rw [← here]
  cases Listing.covers_of_mem listed with
  | unknown isData operands found noOpcode =>
    refine ⟨fun _ => ⟨_, operands, refuses_unknown (here ▸ found) noOpcode⟩, fun op isOp => ?_⟩
    exact absurd (isOp.symm.trans isData) (Option.some_ne_none op)
  | cut isData operands found short =>
    refine ⟨fun _ => ⟨_, operands, refuses_cut (here ▸ found) (here ▸ short)⟩, fun op isOp => ?_⟩
    exact absurd (isOp.symm.trans isData) (Option.some_ne_none op)
  | whole isOp found length operands =>
    refine ⟨fun isData => absurd (isOp.symm.trans isData) (Option.some_ne_none _), ?_⟩
    intro op isOp'
    obtain rfl := Option.some.inj (isOp.symm.trans isOp')
    rw [← here] at found operands
    exact obeys_step found length operands

/-- A branch on zero goes to the first of its targets; the half of a branch at the end is data. -/
theorem step_at_entry_of_branch_and_half_a_branch :
    ∃ (code : Code) (m m' : Machine),
      Listing.ofWords code.words.toList =
        [⟨0, some .sel, [3, 4]⟩, ⟨3, some .halt, []⟩, ⟨4, none, [6]⟩] ∧
      m.pc = 0 ∧ step code m = .ok none m' ∧ Obeys 0 .sel [3, 4] m m' ∧ m'.pc = 3 ∧
      Ends (fun _ _ => False) (fun trap _ => Refuses code { m with pc := 4 } 6 trap)
        (step code { m with pc := 4 }) := by
  let code : Code := ⟨5, #[6, 3, 4, 0, 6]⟩
  let m : Machine := { fresh ⟨5, 8, 8, 8⟩ with stack := ⟨.stack, 8, #[.int 0], 1⟩ }
  let m' : Machine := { m with
    pc := 3, stack := ⟨.stack, 8, #[], 1⟩, dump := ⟨.dump, 8, #[.branch 3], 1⟩, steps := 1 }
  have listing : Listing.ofWords code.words.toList =
      [⟨0, some .sel, [3, 4]⟩, ⟨3, some .halt, []⟩, ⟨4, none, [6]⟩] := by cbv
  have stepped : step code m = .ok none m' := rfl
  refine ⟨code, m, m', listing, rfl, stepped, ?_, rfl, ?_⟩
  · have obeys := (step_at_entry (m := m) (listing ▸ List.mem_cons_self) rfl).2 .sel rfl
    rw [stepped] at obeys
    exact obeys
  · have last : ⟨4, none, [6]⟩ ∈ Listing.ofWords code.words.toList := by
      rw [listing]
      decide
    obtain ⟨word, operands, refuses⟩ :=
      (step_at_entry (m := { m with pc := 4 }) last rfl).1 rfl
    obtain rfl : (6 : Word) = word := List.singleton_inj.1 operands
    exact refuses

end Machine

end Secd
