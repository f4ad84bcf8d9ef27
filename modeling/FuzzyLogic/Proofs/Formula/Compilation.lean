import FuzzyLogic.Formula.Cache
import FuzzyLogic.Proofs.Formula.Grammar
import FuzzyLogic.Proofs.Formula.Tokenization

/-!
# Proofs/Formula/Compilation — which texts compile, and to what

A text **writes** a formula when its tokens derive from the grammar with that tree
(`Formula.Writes`).  Compiling returns a formula exactly where the text writes it, and a syntax
fault everywhere else.

Compiled formulas are handed out by a cache.  Whatever has been asked of the cache before, what it
hands out is what compiling gives: its entries are faithful (`CompileCache.Faithful`), every request
keeps them so, and a request leaves no other way to get an answer.
-/

namespace FuzzyLogic

namespace Token

variable {t : Token} {ts : List Token}

/-- Every token is a lexeme of its kind. -/
def Spelled (ts : List Token) : Prop := ∀ t ∈ ts, ∃ rest, Lexeme t.kind t.text.toList rest

theorem Spelled.tail (h : Spelled (t :: ts)) : Spelled ts :=
  fun u hu => h u (List.mem_cons_of_mem t hu)

theorem Spelled.numerals (h : Spelled ts) : Formula.Numerals ts := by
  intro t ht hkind
  obtain ⟨rest, hlex⟩ := h t ht
  rw [hkind] at hlex
  exact hlex.exists_denotes

/-- The numbers among the tokens of a text are numerals. -/
theorem Tokenizes.numerals {position : Nat} {cs : List Char} (h : Tokenizes position cs ts) :
    Formula.Numerals ts :=
  Spelled.numerals h.exists_lexeme

end Token

namespace Formula

/-- The tokens of the text derive from the grammar, with this tree. -/
def Writes (source : String) (f : Formula) : Prop :=
  ∃ ts, Token.Tokenizes 0 source.toList ts ∧ Derives .disjunction ts f

variable {source : String} {f g : Formula}

theorem lexemes_eq_ok_iff {ts : List Token} :
    lexemes source = .ok ts ↔ Token.Tokenizes 0 source.toList ts := by
  rw [lexemes, Outcome.mapError_eq_ok, Token.scan_eq_ok_iff]

/-- A text is read as the formula that it writes, and as no other one. -/
theorem parse_eq_ok_iff : parse source = .ok f ↔ Writes source f := by
  rw [parse, Outcome.bind_eq_ok]
  constructor
  · rintro ⟨ts, hts, hf⟩
    rw [lexemes_eq_ok_iff] at hts
    exact ⟨ts, hts, derives_of_ofTokens hts.numerals (Outcome.mapError_eq_ok.mp hf)⟩
  · rintro ⟨ts, hts, hf⟩
    exact ⟨ts, lexemes_eq_ok_iff.mpr hts, Outcome.mapError_eq_ok.mpr (ofTokens_of_derives _ hf)⟩

/-- A text writes at most one formula. -/
theorem Writes.unique (hf : Writes source f) (hg : Writes source g) : f = g :=
  Except.ok.inj ((parse_eq_ok_iff.mpr hf).symm.trans (parse_eq_ok_iff.mpr hg))

/-- What is refused is refused with its own text. -/
theorem source_of_parse_error {fault : SyntaxFault} (h : parse source = .error fault) :
    fault.source = source := by
  rw [parse, Outcome.bind_eq_error] at h
  rcases h with h | ⟨ts, -, h⟩
  · obtain ⟨_, -, rfl⟩ := Outcome.mapError_eq_error.mp h
    rfl
  · obtain ⟨_, -, rfl⟩ := Outcome.mapError_eq_error.mp h
    rfl

end Formula

namespace Compiled

variable {source : String} {c : Compiled}

theorem ofSource_eq_ok_iff :
    ofSource source = .ok c ↔ c.source = source ∧ Formula.Writes source c.formula := by
  rw [ofSource, Outcome.map_eq_ok]
  constructor
  · rintro ⟨f, hf, rfl⟩
    exact ⟨rfl, Formula.parse_eq_ok_iff.mp (Outcome.mapError_eq_ok.mp hf)⟩
  · rintro ⟨rfl, hf⟩
    exact ⟨c.formula, Outcome.mapError_eq_ok.mpr (Formula.parse_eq_ok_iff.mpr hf), rfl⟩

/-- Compiling raises syntax faults only, with the text at fault. -/
theorem ofSource_of_not_writes (h : ∀ f, ¬ Formula.Writes source f) :
    ∃ refusal, Formula.parse source = .error ⟨source, refusal⟩ ∧
      ofSource source = .error (.syntaxFault ⟨source, refusal⟩) := by
  obtain ⟨⟨text, refusal⟩, hfault⟩ :=
    Outcome.exists_error fun f hf => h f (Formula.parse_eq_ok_iff.mp hf)
  obtain rfl : text = source := Formula.source_of_parse_error hfault
  exact ⟨refusal, hfault, by rw [ofSource, hfault]; rfl⟩

end Compiled

/-! ## The cache -/

namespace CompileCache

/-- What is kept under a text is what compiling that text gives. -/
def Faithful (c : CompileCache) : Prop :=
  ∀ e ∈ c.entries, Compiled.ofSource e.1 = .ok e.2.compiled

/-- A cache that requests have led to. -/
inductive Reachable : CompileCache → Prop
  | empty : Reachable .empty
  | request {c} (r : CacheRequest) : Reachable c → Reachable (c.request r).2

variable {c : CompileCache} {source : String} {h : Handle}

theorem Faithful.find? (hc : c.Faithful) (hfind : c.find? source = some h) :
    Compiled.ofSource source = .ok h.compiled := by
  obtain ⟨l₁, l₂, hsplit, -⟩ := List.lookup_eq_some_iff.mp hfind
  exact hc (source, h) (by rw [hsplit]; simp)

theorem Faithful.hit (hc : c.Faithful) (hfind : c.find? source = some h) :
    (c.hit source h).Faithful := by
  intro e he
  rcases List.mem_cons.mp he with rfl | he
  · exact hc.find? hfind
  · exact hc e (List.mem_of_mem_filter he)

theorem Faithful.insert (hc : c.Faithful) (hnew : Compiled.ofSource source = .ok h.compiled) :
    (c.insert source h).Faithful := by
  intro e he
  rcases List.mem_cons.mp (List.mem_of_mem_take he) with rfl | he
  · exact hnew
  · exact hc e he

/-- A text that is asked for is answered as it compiles, and the cache stays faithful. -/
theorem Faithful.request_text (hc : c.Faithful) (source : String) :
    (c.request (.text source)).1.map (·.compiled) = Compiled.ofSource source ∧
      (c.request (.text source)).2.Faithful := by
  rw [request]
  split
  case h_1 h hfind => exact ⟨(hc.find? hfind).symm, hc.hit hfind⟩
  split
  case h_1 fault hfault => exact ⟨hfault.symm, hc⟩
  case h_2 compiled hok => exact ⟨hok.symm, hc.insert hok⟩

theorem Reachable.faithful (hc : Reachable c) : c.Faithful := by
  induction hc with
  | empty => exact nofun
  | request r _ ih =>
    cases r with
    | text source => exact (ih.request_text source).2
    | other typeName => exact ih
    | unhashable typeName => exact ih

end CompileCache

/-! ## Compiling -/

/-- **Exactly the formulas compile.**  Of every text:

* it is read as a formula exactly where its tokens derive from the grammar with that tree, which is
  the only one;
* compiling it keeps the text beside the formula, and a cache hands out the same, whatever has been
  asked of it before;
* where it writes no formula it is refused with a syntax fault. -/
theorem compiles_iff_writes (source : String) :
    (∀ f, Formula.parse source = .ok f ↔ Formula.Writes source f) ∧
    (∀ f g, Formula.Writes source f → Formula.Writes source g → f = g) ∧
    (∀ f, Compiled.ofSource source = .ok ⟨source, f⟩ ↔ Formula.Writes source f) ∧
    (∀ c, CompileCache.Reachable c →
      (c.request (.text source)).1.map (·.compiled) = Compiled.ofSource source) ∧
    ((∀ f, ¬ Formula.Writes source f) → ∃ refusal,
      Formula.parse source = .error ⟨source, refusal⟩ ∧
      Compiled.ofSource source = .error (.syntaxFault ⟨source, refusal⟩)) := by
  refine ⟨fun f => Formula.parse_eq_ok_iff, fun f g hf hg => hf.unique hg, ?_, ?_,
    Compiled.ofSource_of_not_writes⟩
  · intro f
    rw [Compiled.ofSource_eq_ok_iff]
    exact and_iff_right rfl
  · intro c hc
    exact (hc.faithful.request_text source).1

/-- The text `!a | 0.5` writes a disjunction of a negated name and a literal. -/
theorem writes_notA_or_half : Formula.Writes "!a | 0.5" (.disjunction (.negation (.name "a" 1))
    (.literal (Formula.literalValue "0.5") 5)) := by
  have hdenotes : Numeral.Denotes (['0'] ++ '.' :: ['5']) _ :=
    .fraction (by decide) (by decide) (by decide)
  have hhalf : Formula.IsDegreeNumeral "0.5" (Formula.literalValue "0.5") :=
    Formula.isDegreeNumeral_of_literalValue ⟨_, hdenotes⟩ (by decide +kernel)
  have hnumber : Token.Tokenizes 5 "0.5".toList [⟨.number, "0.5", 5⟩] :=
    .lexeme (.number hdenotes rfl) .done
  have hor : Token.Tokenizes 3 "| 0.5".toList [⟨.or, "|", 3⟩, ⟨.number, "0.5", 5⟩] :=
    .lexeme (.symbol (c := '|') rfl) (.blank (c := ' ') rfl hnumber)
  have hname : Token.Tokenizes 1 "a | 0.5".toList
      [⟨.ident, "a", 1⟩, ⟨.or, "|", 3⟩, ⟨.number, "0.5", 5⟩] :=
    .lexeme (.ident ⟨'a', [], rfl, rfl, nofun⟩ (Text.stops_cons.mpr rfl))
      (.blank (c := ' ') rfl hor)
  refine ⟨_, .lexeme (.symbol (c := '!') rfl) hname, ?_⟩
  have hnot : Formula.Derives .disjunction [⟨.not, "!", 0⟩, ⟨.ident, "a", 1⟩]
      (.negation (.name "a" 1)) :=
    .disjunct (.conjunct (.not rfl (.operand (.name rfl))))
  exact hnot.or rfl (.conjunct (.operand (.number rfl hhalf)))

namespace Compiled

/-- The text `!a | 0.5`, compiled. -/
def notAOrHalf : Compiled :=
  ⟨"!a | 0.5", .disjunction (.negation (.name "a" 1)) (.literal (Formula.literalValue "0.5") 5)⟩

theorem ofSource_notAOrHalf : ofSource "!a | 0.5" = .ok notAOrHalf :=
  ofSource_eq_ok_iff.mpr ⟨rfl, writes_notA_or_half⟩

theorem names_notAOrHalf : notAOrHalf.names = ["a"] := by decide

end Compiled

/-- A text that compiles, also through a cache that has been asked before, and one that does not. -/
theorem notA_or_half_compiles :
    Formula.parse "!a | 0.5" = .ok (.disjunction (.negation (.name "a" 1))
      (.literal (Formula.literalValue "0.5") 5)) ∧
    (((CompileCache.empty.request (.text "a &")).2.request (.text "!a | 0.5")).1.map (·.compiled) =
      .ok ⟨"!a | 0.5", .disjunction (.negation (.name "a" 1))
        (.literal (Formula.literalValue "0.5") 5)⟩) ∧
    ∃ refusal, Formula.parse "" = .error ⟨"", refusal⟩ := by
  obtain ⟨hparse, -, hcompile, hcache, -⟩ := compiles_iff_writes "!a | 0.5"
  have hreach : CompileCache.Reachable (CompileCache.empty.request (.text "a &")).2 :=
    .request _ .empty
  refine ⟨(hparse _).mpr writes_notA_or_half,
    (hcache _ hreach).trans ((hcompile _).mpr writes_notA_or_half), ?_⟩
  obtain ⟨-, -, -, -, hrefused⟩ := compiles_iff_writes ""
  obtain ⟨refusal, hparse, -⟩ := hrefused fun f hf => by
    obtain ⟨ts, hts, hf⟩ := hf
    obtain ⟨t, us, rfl, -⟩ := hf.exists_start
    exact absurd ((Token.scan_nil 0).symm.trans (Token.scan_of_tokenizes hts)) (by simp)
  exact ⟨refusal, hparse⟩

end FuzzyLogic
