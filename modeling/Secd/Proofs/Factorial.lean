import Mathlib.Data.Nat.Factorial.Basic
import Secd.Proofs.Arithmetic
import Secd.Proofs.Listings

/-!
The factorial program, from its source to what a run of it uses. The function multiplies its
argument with what it gives itself for the argument less one:

       0             LDRF fact   LDC n   AP   HALT
       6  fact:      LD 0   SEL zero, nonzero   RTN
      12  zero:      LDC 1   JOIN
      15  nonzero:   LD 0   LD 1   LD 0   LDC 1   SUB   AP   MUL   JOIN

Every level leaves a call frame and a branch frame on the dump, a number on the stack and a cell in
the heap. An argument is counted down as a number below `2 ^ 64`, so that a negative one goes deeper
than any dump.
-/

namespace Secd

namespace Factorial

/-- The body of the function: its argument is at index 0, the function itself at index 1. -/
def body : Expr :=
  .ifZero (.var 0) (.literal 1)
    (.arith .mul (.var 0) (.app (.var 1) (.arith .sub (.var 0) (.literal 1))))

/-- The function, called with a word. -/
def call (n : Word) : Expr := .app (.lamRec body) (.literal n)

/-! ### What it is worth and what it costs -/

/-- What the body costs for a number. -/
def bodyCost (k : Nat) : Cost := ⟨11 * k + 4, if k = 0 then 1 else k + 3, 2 * k + 1, k⟩

/-- What the call costs for a number. -/
def callCost (k : Nat) : Cost := ⟨11 * k + 8, if k = 0 then 2 else k + 3, 2 * k + 2, k + 3⟩

theorem ofNat_ne_zero {k : Nat} (positive : 0 < k) (small : k < 2 ^ 64) : Int64.ofNat k ≠ 0 := by
  intro zero
  have congruent : (Int64.ofNat k).toInt ≡ k [ZMOD 2 ^ 64] := Word.toInt_modEq_iff.2 rfl
  rw [zero] at congruent
  have divides : (2 ^ 64 : Int) ∣ k := Int.modEq_zero_iff_dvd.1 congruent.symm
  omega

theorem ofNat_succ_sub_one (k : Nat) : Int64.ofNat (k + 1) - 1 = Int64.ofNat k := by
  rw [Int64.ofNat_add]
  exact Int64.add_sub_cancel _ _

/-- A level multiplies the number with what the next one gives. -/
theorem spends_level {k : Nat} (small : k + 1 < 2 ^ 64)
    (next : Expr.Spends [.int (Int64.ofNat k), .recursive body []] body
      (.int (Int64.ofNat k.factorial)) (bodyCost k)) :
    Expr.Spends [.int (Int64.ofNat (k + 1)), .recursive body []] body
      (.int (Int64.ofNat (k + 1).factorial)) (bodyCost (k + 1)) := by
  let env : List (Datum Expr) := [.int (Int64.ofNat (k + 1)), .recursive body []]
  have argument : Expr.Spends env (.var 0) (.int (Int64.ofNat (k + 1))) ⟨1, 1, 0, 0⟩ := .var rfl
  have self : Expr.Spends env (.var 1) (.recursive body []) ⟨1, 1, 0, 0⟩ := .var rfl
  have less : Expr.Spends env (.arith .sub (.var 0) (.literal 1)) (.int (Int64.ofNat k))
      ⟨3, 2, 0, 0⟩ := by
    rw [← ofNat_succ_sub_one]
    exact .arith argument (.literal 1)
  have product : Expr.Spends env
      (.arith .mul (.var 0) (.app (.var 1) (.arith .sub (.var 0) (.literal 1))))
      (.int (Int64.ofNat (k + 1).factorial)) ⟨11 * k + 12, k + 4, 2 * k + 2, k + 1⟩ := by
    have cost : (⟨11 * k + 12, k + 4, 2 * k + 2, k + 1⟩ : Cost) =
        ((⟨1, 1, 0, 0⟩ : Cost).and ((((⟨1, 1, 0, 0⟩ : Cost).and (Cost.above ⟨3, 2, 0, 0⟩ 1 0)).and
          ((bodyCost k).framed 1)).above 1 0)).and ⟨1, 0, 0, 0⟩ := by
      simp only [Cost.and, Cost.above, Cost.framed, bodyCost, Cost.mk.injEq]
      refine ⟨by omega, ?_, by omega, by omega⟩
      split <;> omega
    rw [cost, Nat.factorial_succ, Int64.ofNat_mul]
    exact .arith argument (.app self rfl less next)
  have cost : bodyCost (k + 1) =
      Cost.and ⟨1, 1, 0, 0⟩ (Cost.framed ⟨11 * k + 12, k + 4, 2 * k + 2, k + 1⟩ 0) := by
    simp only [Cost.and, Cost.above, Cost.framed, bodyCost, Cost.mk.injEq,
      if_neg (Nat.succ_ne_zero k)]
    refine ⟨?_, ?_, ?_, ?_⟩ <;> omega
  rw [cost]
  refine .ifZero argument ?_
  rw [if_neg (ofNat_ne_zero (Nat.succ_pos k) small)]
  exact product

/-- The body gives the factorial modulo `2 ^ 64`, and every level costs the same. -/
theorem spends_body (k : Nat) (small : k < 2 ^ 64) :
    Expr.Spends [.int (Int64.ofNat k), .recursive body []] body (.int (Int64.ofNat k.factorial))
      (bodyCost k) := by
  induction k with
  | zero =>
    have argument : Expr.Spends [.int (Int64.ofNat 0), .recursive body []] (.var 0) (.int 0)
        ⟨1, 1, 0, 0⟩ := .var rfl
    exact .ifZero argument (.literal 1)
  | succ k ih => exact spends_level small (ih (Nat.lt_of_succ_lt small))

theorem spends_call (k : Nat) (small : k < 2 ^ 64) :
    Expr.Spends [] (call (Int64.ofNat k)) (.int (Int64.ofNat k.factorial)) (callCost k) := by
  have cost : callCost k = ((⟨1, 1, 0, 2⟩ : Cost).and (Cost.above ⟨1, 1, 0, 0⟩ 1 0)).and
      ((bodyCost k).framed 1) := by
    simp only [Cost.and, Cost.above, Cost.framed, bodyCost, callCost, Cost.mk.injEq]
    refine ⟨by omega, ?_, by omega, by omega⟩
    split <;> omega
  rw [cost]
  exact .app (.lamRec body) rfl (.literal _) (spends_body k small)

/-! ### The source -/

open Assembly (Line Reads Cut Stands Places Contributes Encodes Valid assemble)

/-- The lines before the number. -/
def above : List String := ["", "                LDRF fact"]

/-- The lines behind the number. -/
def below : List String :=
  ["                AP",
   "                HALT",
   "        fact:   LD 0",
   "                SEL zero, nonzero",
   "                RTN",
   "        zero:   LDC 1",
   "                JOIN",
   "        nonzero:",
   "                LD 0",
   "                LD 1",
   "                LD 0",
   "                LDC 1",
   "                SUB",
   "                AP",
   "                MUL",
   "                JOIN",
   "        "]

/-- The line with the number. -/
def numberLine (n : Word) : String := "                LDC " ++ n.render

/-- The program for a number, as source. -/
def source (n : Word) : String := "\n".intercalate (above ++ numberLine n :: below)

/-- The words of the program. -/
def words (n : Word) : List Word :=
  [8, 6, 1, n, 9, 0, 2, 0, 6, 12, 15, 10, 1, 1, 11, 2, 0, 2, 1, 2, 0, 1, 1, 4, 9, 5, 11]

/-- A line with an instruction and no label. -/
def plain (op : Opcode) (operands : List String) : Line :=
  ⟨[], some ⟨op, operands.map String.toList⟩⟩

/-- What the lines before the number are read as. -/
def linesAbove : List Line := [⟨[], none⟩, plain .ldrf ["fact"]]

/-- What the lines behind the number are read as. -/
def linesBelow : List Line :=
  [plain .ap [], plain .halt [],
   { plain .ld ["0"] with labels := ["fact".toList] }, plain .sel ["zero", "nonzero"],
   plain .rtn [],
   { plain .ldc ["1"] with labels := ["zero".toList] }, plain .join [],
   ⟨["nonzero".toList], none⟩, plain .ld ["0"], plain .ld ["1"], plain .ld ["0"],
   plain .ldc ["1"], plain .sub [], plain .ap [], plain .mul [], plain .join [], ⟨[], none⟩]

/-- What the lines of the program are read as. -/
def lines (n : Word) : List Line := linesAbove ++ plain .ldc [n.render] :: linesBelow

theorem encodes (n : Word) : Encodes (lines n) (words n) := by
  have literal (w : Word) : Stands (lines n) w.render.toList w := .literal w.literal_render
  have fact : Stands (lines n) "fact".toList 6 :=
    .label ⟨(lines n).take 5, _, (lines n).drop 6, rfl, List.mem_singleton_self _, rfl⟩
  have zero : Stands (lines n) "zero".toList 12 :=
    .label ⟨(lines n).take 8, _, (lines n).drop 9, rfl, List.mem_singleton_self _, rfl⟩
  have nonzero : Stands (lines n) "nonzero".toList 15 :=
    .label ⟨(lines n).take 10, _, (lines n).drop 11, rfl, List.mem_singleton_self _, rfl⟩
  have bare (op : Opcode) : Contributes (lines n) (plain op []) [op.word] := .instruction [] .nil
  have one {op : Opcode} {operand : String} {w : Word} (labels : List Assembly.Name)
      (stands : Stands (lines n) operand.toList w) :
      Contributes (lines n) { plain op [operand] with labels } [op.word, w] :=
    .instruction labels (.cons stands .nil)
  refine ⟨[[], [8, 6], [1, n], [9], [0], [2, 0], [6, 12, 15], [10], [1, 1], [11], [], [2, 0],
    [2, 1], [2, 0], [1, 1], [4], [9], [5], [11], []], ?_, rfl⟩
  refine .cons (.nothing _) (.cons (one [] fact) (.cons (one [] (literal n)) ?_))
  refine .cons (bare _) (.cons (bare _) (.cons (one _ (literal 0)) ?_))
  refine .cons (.instruction [] (.cons zero (.cons nonzero .nil))) (.cons (bare _) ?_)
  refine .cons (one _ (literal 1)) (.cons (bare _) (.cons (.nothing _) ?_))
  refine .cons (one [] (literal 0)) (.cons (one [] (literal 1)) (.cons (one [] (literal 0)) ?_))
  refine .cons (one [] (literal 1)) (.cons (bare .sub) (.cons (bare .ap) ?_))
  exact .cons (bare .mul) (.cons (bare .join) (.cons (.nothing _) .nil))

/-- Blanks before a line do not change what is read. -/
theorem reads_indented {cs : List Char} {line : Line} (k : Nat)
    (reads : ∃ body, Cut cs body ∧ Reads body line) :
    ∃ body, Cut (List.replicate k ' ' ++ cs) body ∧ Reads body line := by
  obtain ⟨body, ⟨comment, rfl, free, start⟩, reads⟩ := reads
  have blank {P : Char → Prop} (h : P ' ') : ∀ c ∈ List.replicate k ' ', P c :=
    fun c mem => (List.eq_of_mem_replicate mem).symm ▸ h
  refine ⟨List.replicate k ' ' ++ body, ⟨comment, (List.append_assoc ..).symm, ?_, start⟩, ?_⟩
  · exact List.forall_mem_append.2 ⟨blank (by decide), free⟩
  · have separates : ∀ c ∈ List.replicate k ' ', Assembly.isSeparator c = true :=
      blank (by decide)
    cases reads with
    | nothing others => exact .nothing (List.forall_mem_append.2 ⟨separates, others⟩)
    | instruction fields spells count =>
      have found := (Text.fields_gap_append separates).trans fields.fields_eq
      exact .instruction (Text.fields_eq_iff.1 found) spells count
    | label before name after more =>
      have front := List.forall_mem_append.2 ⟨blank (by decide), before⟩
      have read := Reads.label front name after more
      simpa only [List.append_assoc] using read

theorem toList_numberLine (n : Word) :
    (numberLine n).toList = "                LDC ".toList ++ n.render.toList :=
  String.toList_append

theorem reads_numberLine (n : Word) :
    ∃ body, Cut (numberLine n).toList body ∧ Reads body (plain .ldc [n.render]) := by
  -- without the blanks it is a line of a listing
  let e : Listing.Entry := ⟨0, some .ldc, [n]⟩
  have row : (numberLine n).toList = List.replicate 16 ' ' ++ e.body.toList := by
    have texts : e.texts = ["LDC".toList, n.render.toList] := rfl
    rw [toList_numberLine, e.toList_body, texts, List.intercalate_cons_cons,
      List.intercalate_singleton]
    rfl
  rw [row]
  exact reads_indented 16 ⟨_, e.cut_body, e.reads_body rfl nofun⟩

theorem splitOn_source (n : Word) :
    (source n).toList.splitOn '\n' = (above ++ numberLine n :: below).map String.toList := by
  have rows : (source n).toList =
      ['\n'].intercalate ((above ++ numberLine n :: below).map String.toList) := by
    rw [source, String.toList_intercalate]
    rfl
  have free : '\n' ∉ (numberLine n).toList := by
    rw [toList_numberLine, List.mem_append, not_or]
    refine ⟨by decide, fun mem => ?_⟩
    exact absurd ((Listing.printed_render n).2 _ mem) (by decide)
  rw [rows, List.splitOn_intercalate]
  · rw [List.forall_mem_map, List.forall_mem_append, List.forall_mem_cons]
    exact ⟨by decide, free, by decide⟩
  · exact nofun

theorem valid (n : Word) : Valid (source n) (lines n) := by
  refine ⟨?_, ?_, Assembly.exists_encodes_iff.1 ⟨_, encodes n⟩⟩
  · have before := @Assembly.forall₂_reads (above.map String.toList) 1 linesAbove
      (by decide +kernel)
    have behind := @Assembly.forall₂_reads (below.map String.toList) 1 linesBelow
      (by decide +kernel)
    rw [splitOn_source, List.map_append, List.map_cons]
    exact List.rel_append before (.cons (reads_numberLine n) behind)
  · have labels : (lines n).flatMap Line.labels =
        ["fact".toList, "zero".toList, "nonzero".toList] := rfl
    rw [labels]
    decide

/-- The source assembles, whatever the number is. -/
theorem assemble_source (n : Word) : assemble (source n) = .ok (words n) :=
  Assembly.assemble_of_valid (valid n) (encodes n)

/-! ### The run -/

open Machine (load? run fresh)

/-- What the run for a number uses. -/
def stats (k : Nat) : Stats := ⟨11 * k + 9, if k = 0 then 2 else k + 3, 2 * k + 2, k + 3⟩

/-- The stores have room for the run for a number. -/
def Suffices (caps : Capacities) (k : Nat) : Prop :=
  (if k = 0 then 2 else k + 3) < caps.stack ∧ 2 * k + 2 < caps.dump ∧ k + 3 ≤ caps.heap

variable {n : Word} {caps : Capacities} {k : Nat}

theorem suffices_iff_fits : Suffices caps k ↔ ∀ segment, (stats k).Fits caps segment := by
  have positive : (if k = 0 then 2 else k + 3) ≠ 0 := by split <;> omega
  constructor
  · rintro ⟨stack, dump, heap⟩ segment
    cases segment with
    | code => trivial
    | stack => exact .inr stack
    | dump => exact .inr dump
    | heap => exact heap
  · intro fits
    exact ⟨(fits .stack).resolve_left positive, (fits .dump).resolve_left nofun, fits .heap⟩

/-- The words of the program are code for the call, and a HALT. -/
theorem holds_call (n : Word) (capacity : Nat) :
    Code.Holds ⟨capacity, (words n).toArray⟩ (call n) 0 5 ∧
      Code.HasOp ⟨capacity, (words n).toArray⟩ 5 .halt := by
  let code : Code := ⟨capacity, (words n).toArray⟩
  have test : code.Holds (.var 0) 6 8 := .var rfl ⟨0, rfl, rfl⟩
  have last : code.Holds (.literal 1) 12 14 := .literal rfl rfl
  have less : code.Holds (.arith .sub (.var 0) (.literal 1)) 19 24 :=
    .arith (.var rfl ⟨0, rfl, rfl⟩) (.literal rfl rfl) rfl
  have again : code.Holds (.app (.var 1) (.arith .sub (.var 0) (.literal 1))) 17 25 :=
    .app (.var rfl ⟨1, rfl, rfl⟩) less rfl
  have product : code.Holds (.arith .mul (.var 0)
      (.app (.var 1) (.arith .sub (.var 0) (.literal 1)))) 15 26 :=
    .arith (.var rfl ⟨0, rfl, rfl⟩) again rfl
  have inner : code.Holds body 6 11 :=
    .ifZero test rfl ⟨12, rfl, rfl⟩ ⟨15, rfl, rfl⟩ last rfl product rfl
  exact ⟨.app (.lamRec rfl ⟨6, rfl, rfl⟩ inner rfl) (.literal rfl rfl) rfl, rfl⟩

theorem eq_ofNat (congruent : n.toInt ≡ k [ZMOD 2 ^ 64]) : n = Int64.ofNat k :=
  Word.toInt_modEq_iff.1 congruent

/-- As a number below `2 ^ 64` the argument decides how the run ends. -/
theorem run_of_small (small : k < 2 ^ 64) (capacity : Nat) (caps : Capacities) :
    Suffices caps k ∧ (∃ m, run ⟨capacity, (words (Int64.ofNat k)).toArray⟩ (fresh caps) =
        .ok (.int (Int64.ofNat k.factorial)) m ∧ m.stats = stats k) ∨
    ¬ Suffices caps k ∧ ∃ trap m, run ⟨capacity, (words (Int64.ofNat k)).toArray⟩ (fresh caps) =
        .error trap m ∧ trap.fault.kind = .exhaustion := by
  obtain ⟨holds, halt⟩ := holds_call (Int64.ofNat k) capacity
  have used : (callCost k).stats = stats k := rfl
  rw [suffices_iff_fits, ← used]
  rcases Machine.run_fits_or_exhausts (spends_call k small) holds halt caps with
    ⟨m, ran, isStats, fits⟩ | ⟨trap, m, segment, ran, fault, lacks⟩
  · exact .inl ⟨fits, m, ran, isStats⟩
  · exact .inr ⟨fun fits => lacks (fits segment), trap, m, ran, fault ▸ rfl⟩

/-- The program assembles, and a run of it halts exactly if there is room for it, with the factorial
modulo `2 ^ 64` and having used just that. Without the room, and for every negative number, it ends
in a full store. -/
theorem run_factorial (n : Word) :
    assemble (source n) = .ok (words n) ∧
    ∀ caps code m, load? (words n).toArray caps = .ok (code, m) →
      (∀ segment, caps.get segment ≤ 2 ^ 64 - 1) →
      (∀ k : Nat, n.toInt = k →
        ((∃ value m', run code m = .ok value m') ↔ Suffices caps k) ∧
        (Suffices caps k → ∃ (w : Word) (m' : Machine), run code m = .ok (.int w) m' ∧
          (∀ w' : Word, w'.toInt ≡ k.factorial [ZMOD 2 ^ 64] ↔ w' = w) ∧ m'.stats = stats k) ∧
        (¬ Suffices caps k → ∃ trap m', run code m = .error trap m' ∧
          trap.fault.kind = .exhaustion)) ∧
      (n.toInt < 0 → ∃ trap m', run code m = .error trap m' ∧ trap.fault.kind = .exhaustion) := by
  refine ⟨assemble_source n, fun caps code m loaded bounded => ?_⟩
  obtain ⟨rfl, rfl⟩ := Machine.load?_eq_ok loaded
  constructor
  · intro k isNumber
    have small : k < 2 ^ 64 := by
      have below := n.toInt_lt
      omega
    obtain rfl : n = Int64.ofNat k := eq_ofNat (by rw [isNumber])
    rcases run_of_small small caps.code caps with
      ⟨suffices', m, ran, used⟩ | ⟨lacks, trap, m, ran, kind⟩
    · rw [ran]
      refine ⟨⟨fun _ => suffices', fun _ => ⟨_, _, rfl⟩⟩, fun _ => ⟨_, _, rfl, ?_, used⟩, ?_⟩
      · exact fun w' => Word.toInt_modEq_iff
      · exact fun lacks => absurd suffices' lacks
    · rw [ran]
      refine ⟨⟨?_, fun room => absurd room lacks⟩, fun room => absurd room lacks, ?_⟩
      · rintro ⟨_, _, ⟨⟩⟩
      · exact fun _ => ⟨trap, m, rfl, kind⟩
  · intro negative
    have above := n.le_toInt
    obtain ⟨k, isNumber⟩ := Int.eq_ofNat_of_zero_le (show 0 ≤ n.toInt + 2 ^ 64 by omega)
    have small : k < 2 ^ 64 := by omega
    obtain rfl : n = Int64.ofNat k := by
      refine eq_ofNat ?_
      rw [← isNumber]
      exact (Int.add_emod_right _ _).symm
    rcases run_of_small small caps.code caps with ⟨⟨-, dump, -⟩, -⟩ | ⟨-, trap, m, ran, kind⟩
    · -- the dump would have to be higher than any
      have bound := bounded .dump
      simp only [Capacities.get] at bound
      omega
    · exact ⟨trap, m, ran, kind⟩

/-- With the capacities that are the default, 5 has a factorial and -1 has none. -/
theorem run_factorial_of_five_and_minus_one :
    assemble (source 5) = .ok (words 5) ∧ assemble (source (-1)) = .ok (words (-1)) ∧
      ∃ code m code' m', load? (words 5).toArray {} = .ok (code, m) ∧
        load? (words (-1)).toArray {} = .ok (code', m') ∧
        (∃ t, run code m = .ok (.int 120) t ∧ t.stats = ⟨64, 8, 12, 8⟩) ∧
        ∃ trap t, run code' m' = .error trap t ∧ trap.fault.kind = .exhaustion := by
  have loaded : load? (words 5).toArray {} = .ok (⟨65536, (words 5).toArray⟩, fresh {}) := rfl
  have loaded' : load? (words (-1)).toArray {} = .ok (⟨65536, (words (-1)).toArray⟩, fresh {}) :=
    rfl
  have bounded (segment : Segment) : Capacities.get {} segment ≤ 2 ^ 64 - 1 := by
    cases segment <;> decide
  obtain ⟨assembled, law⟩ := run_factorial 5
  obtain ⟨assembled', law'⟩ := run_factorial (-1)
  obtain ⟨w, t, ran, unique, used⟩ :=
    ((law _ _ _ loaded bounded).1 5 rfl).2.1 ⟨by decide, by decide, by decide⟩
  have isResult : (120 : Word) = w := (unique 120).1 rfl
  refine ⟨assembled, assembled', _, _, _, _, loaded, loaded', ⟨t, isResult ▸ ran, used⟩, ?_⟩
  exact (law' _ _ _ loaded' bounded).2 (by decide)

end Factorial

end Secd
