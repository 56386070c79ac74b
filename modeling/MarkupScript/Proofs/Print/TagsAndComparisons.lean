import MarkupScript.Proofs.Parse.Results
import MarkupScript.Proofs.Print.Programs
import MarkupScript.Proofs.Tree.Count

/-!
# Tags and comparisons of a printed program

The mark `<` starts a tag or a comparison. In the text of a program whose comparisons do not look
like tags, each tag of the program starts one tag and each comparison is one, and there are no
others. The lexemes of a program have one mark for each tag and each comparison, and the tokens are
the lexemes.
-/

namespace MarkupScript

/-- The marks that start with `<`. -/
inductive Angle where
  | tagStart | less | lessEqual
  deriving DecidableEq

/-- The mark itself. -/
def Angle.symbol : Angle → Symbol
  | tagStart => .tagStart
  | less => .less
  | lessEqual => .lessEqual

/-- Which of these marks a mark is, if any. -/
def Symbol.angle? : Symbol → Option Angle
  | tagStart => some .tagStart
  | less => some .less
  | lessEqual => some .lessEqual
  | _ => none

/-- Which of these marks a token is, if any. -/
def Kind.angle? : Kind → Option Angle
  | symbol m => m.angle?
  | _ => none

/-- How often one of these marks stands among lexemes. -/
def angleCount (a : Angle) (ls : List Lexeme) : Nat := ls.countP (·.kind.angle? == some a)

/-- Whether the operator of an expression is one of these marks. -/
def Expr.writes (a : Angle) : Expr → Bool
  | binary _ op _ _ => op.symbol.angle? == some a
  | _ => false

/-- Whether a statement starts with one of these marks, as a tag does. -/
def Stmt.writes (a : Angle) (s : Stmt) : Bool := s.isTag && .tagStart == a

/-! ### Marks among lexemes -/

section

variable (x : String)

@[simp] theorem Kind.angle?_symbol (m : Symbol) : (Kind.symbol m).angle? = m.angle? := rfl

@[simp] theorem Lexeme.angle?_mark (m : Symbol) : (Lexeme.mark m).kind.angle? = m.angle? := rfl

@[simp] theorem Lexeme.angle?_keyword (k : Keyword) : (Lexeme.keyword k).kind.angle? = none := rfl

@[simp] theorem Lexeme.angle?_name : (Lexeme.name x).kind.angle? = none := rfl

@[simp] theorem Lexeme.angle?_string : (Lexeme.string x).kind.angle? = none := rfl

@[simp] theorem Lexeme.angle?_word : (Lexeme.word x).kind.angle? = none := by
  simp only [Lexeme.word, Kind.ofWord]
  repeat' split
  all_goals rfl

@[simp] theorem angle?_keyLexeme : (keyLexeme x).kind.angle? = none := by
  unfold keyLexeme
  split <;> simp

@[simp] theorem angle?_numberLexeme (value : Double) :
    (numberLexeme value).kind.angle? = none := by
  unfold numberLexeme
  split
  · rfl
  · simp

@[simp] theorem UnaryOp.angle?_lexeme (op : UnaryOp) : op.lexeme.kind.angle? = none := by
  cases op <;> rfl

@[simp] theorem UpdateOp.angle?_symbol (op : UpdateOp) : op.symbol.angle? = none := by
  cases op <;> rfl

@[simp] theorem AssignOp.angle?_symbol (op : AssignOp) : op.symbol.angle? = none := by
  cases op <;> rfl

end

section

variable {a : Angle} {ls ms : List Lexeme}

@[simp] theorem angleCount_nil : angleCount a [] = 0 := rfl

@[simp] theorem angleCount_cons (l : Lexeme) :
    angleCount a (l :: ls) = (l.kind.angle? == some a).toNat + angleCount a ls := by
  cases h : l.kind.angle? == some a <;> simp [angleCount, h, Nat.add_comm]

@[simp] theorem angleCount_append : angleCount a (ls ++ ms) = angleCount a ls + angleCount a ms :=
  List.countP_append

@[simp] theorem angleCount_parenthesisedIf (needed : Bool) :
    angleCount a (lexemesParenthesisedIf needed ls) = angleCount a ls := by
  cases needed <;> simp [lexemesParenthesisedIf, Symbol.angle?]

@[simp] theorem angleCount_inPlace (e : Expr) (least : Nat) :
    angleCount a (e.lexemesInPlace least ls) = angleCount a ls :=
  angleCount_parenthesisedIf _

@[simp] theorem angleCount_guard : angleCount a (guardLexemes ls) = angleCount a ls :=
  angleCount_parenthesisedIf _

@[simp] theorem angleCount_onSameLine : angleCount a (onSameLine ls) = angleCount a ls := by
  cases ls <;> simp [onSameLine]

@[simp] theorem angleCount_onNewLine : angleCount a (onNewLine ls) = angleCount a ls := by
  cases ls <;> simp [onNewLine]

@[simp] theorem angleCount_commas (lss : List (List Lexeme)) :
    angleCount a (commaLexemes lss) = angleCount a lss.flatten := by
  fun_induction commaLexemes lss with
  | case1 => rfl
  | case2 ls => simp
  | case3 ls rest _ ih => simp [Symbol.angle?, ih]

theorem angleCount_flatten_eq_zero {lss : List (List Lexeme)}
    (h : ∀ ls ∈ lss, angleCount a ls = 0) : angleCount a lss.flatten = 0 := by
  induction lss with
  | nil => rfl
  | cons ls lss ih =>
    simp [h ls List.mem_cons_self, ih fun ms hms => h ms (List.mem_cons_of_mem _ hms)]

@[simp] theorem angleCount_params (params : List String) :
    angleCount a (paramLexemes params) = 0 := by
  have hwords : angleCount a (params.map fun x => [.word x]).flatten = 0 :=
    angleCount_flatten_eq_zero (by simp)
  simp [paramLexemes, Symbol.angle?, hwords]

@[simp] theorem angleCount_specifier (x : ImportSpecifier) : angleCount a x.lexemes = 0 := by
  unfold ImportSpecifier.lexemes
  split <;> simp

theorem angleCount_importClauses (defaultName : Option String) (xs : List ImportSpecifier) :
    ∀ ls ∈ importClauses defaultName xs, angleCount a ls = 0 := by
  intro ls hls
  rcases List.mem_append.mp hls with hls | hls
  · obtain ⟨x, -, rfl⟩ := List.mem_map.mp hls
    simp
  · split at hls
    · cases hls
    · obtain rfl := List.mem_singleton.mp hls
      have hspecifiers : angleCount a (xs.map ImportSpecifier.lexemes).flatten = 0 :=
        angleCount_flatten_eq_zero (by simp)
      simp [Symbol.angle?, hspecifiers]

@[simp] theorem angleCount_import (defaultName : Option String) (xs : List ImportSpecifier)
    (source : String) : angleCount a (importLexemes defaultName xs source) = 0 := by
  have hclauses := angleCount_flatten_eq_zero (angleCount_importClauses (a := a) defaultName xs)
  simp only [importLexemes]
  split <;> simp [Symbol.angle?, hclauses]

end

/-! ### Marks of trees -/

/-- The lexemes of an expression have a mark as often as its parts are written with it. -/
@[simp] abbrev Expr.Tallies (a : Angle) (e : Expr) : Prop :=
  angleCount a e.lexemes = e.count (Expr.writes a) (Stmt.writes a)

/-- The lexemes of a statement have a mark as often as its parts are written with it. -/
@[simp] abbrev Stmt.Tallies (a : Angle) (s : Stmt) : Prop :=
  angleCount a s.lexemes = s.count (Expr.writes a) (Stmt.writes a)

namespace Tallies

variable {a : Angle}

theorem exprs {es : List Expr} (h : ∀ e ∈ es, e.Tallies a) :
    angleCount a (exprsLexemes es).flatten =
      countExprs (Expr.writes a) (Stmt.writes a) es := by
  induction es with
  | nil => rfl
  | cons e es ih =>
    have hes := ih fun x hx => h x (List.mem_cons_of_mem _ hx)
    simp [exprsLexemes, h e List.mem_cons_self, hes]

/-- A shorthand property has no value of its own. -/
theorem properties {ps : List Property} (hwf : ∀ p ∈ ps, p.WellFormed)
    (h : ∀ p ∈ ps, p.value.WellFormed → p.value.Tallies a) :
    angleCount a (propertiesLexemes ps).flatten =
      countProperties (Expr.writes a) (Stmt.writes a) ps := by
  induction ps with
  | nil => rfl
  | cons p ps ih =>
    have hps := ih (fun q hq => hwf q (List.mem_cons_of_mem _ hq))
      fun q hq => h q (List.mem_cons_of_mem _ hq)
    have hp := hwf p List.mem_cons_self
    have hv := h p List.mem_cons_self
    obtain ⟨key, value, shorthand⟩ := p
    cases shorthand with
    | true =>
      obtain ⟨-, span, rfl⟩ : IsIdentifier key ∧ ∃ span, value = .identifier key span := hp
      simp [propertiesLexemes, Expr.writes, hps]
    | false => simp [propertiesLexemes, Symbol.angle?, hv hp, hps]

theorem declarators {ds : List Declarator} (h : ∀ d ∈ ds, ∀ e ∈ d.init, e.Tallies a) :
    angleCount a (declaratorsLexemes ds).flatten =
      countDeclarators (Expr.writes a) (Stmt.writes a) ds := by
  induction ds with
  | nil => rfl
  | cons d ds ih =>
    have hds := ih fun x hx => h x (List.mem_cons_of_mem _ hx)
    have hd := h d List.mem_cons_self
    obtain ⟨name, init⟩ := d
    cases init with
    | none => simp [declaratorsLexemes, hds]
    | some e =>
      simp [declaratorsLexemes, Symbol.angle?, hd e rfl, hds]

theorem attributes {as : List Attribute} (h : ∀ x e, .braced x e ∈ as → e.Tallies a) :
    angleCount a (attributesLexemes as) = countAttributes (Expr.writes a) (Stmt.writes a) as := by
  induction as with
  | nil => rfl
  | cons b as ih =>
    have has := ih fun x e hx => h x e (List.mem_cons_of_mem _ hx)
    cases b with
    | bare x => simp [attributesLexemes, has]
    | text x value => simp [attributesLexemes, Symbol.angle?, has]
    | braced x e =>
      simp [attributesLexemes, Symbol.angle?, h x e List.mem_cons_self, has]

theorem stmts {body : List Stmt} (h : ∀ s ∈ body, s.Tallies a) :
    angleCount a (stmtsLexemes body) = countStmts (Expr.writes a) (Stmt.writes a) body := by
  induction body with
  | nil => rfl
  | cons s body ih =>
    have hbody := ih fun t ht => h t (List.mem_cons_of_mem _ ht)
    simp [stmtsLexemes, h s List.mem_cons_self, hbody]

theorem alternate {alternate : Option Stmt} (h : ∀ s ∈ alternate, s.Tallies a) :
    angleCount a (elseLexemes alternate) =
      countStmt? (Expr.writes a) (Stmt.writes a) alternate := by
  cases alternate with
  | none => rfl
  | some s => simp [elseLexemes, h s rfl]

theorem forPart {part : Option Expr} (h : ∀ e ∈ part, e.Tallies a) :
    angleCount a (forPartLexemes part) = countExpr? (Expr.writes a) (Stmt.writes a) part := by
  cases part with
  | none => rfl
  | some e => simp [forPartLexemes, h e rfl]

theorem forInit {init : Option Stmt} (hform : ∀ s ∈ init, s.isForInit = true)
    (he : ∀ value, init = some (.expression value) → value.Tallies a)
    (hd : ∀ kind ds, init = some (.declaration kind ds) → ∀ d ∈ ds, ∀ e ∈ d.init, e.Tallies a) :
    angleCount a (forInitLexemes init) = countStmt? (Expr.writes a) (Stmt.writes a) init := by
  cases init with
  | none => rfl
  | some s =>
    have hs := hform s rfl
    cases s with
    | expression value =>
      simp [forInitLexemes, Stmt.writes, Stmt.isTag, he value rfl]
    | declaration kind ds =>
      simp [forInitLexemes, Stmt.writes, Stmt.isTag, declarators (hd kind ds rfl)]
    | _ => cases hs

/-- The name behind a dot may be a keyword, which is no expression of its own. -/
theorem property {property : Expr} {computed optional : Bool}
    (hwf : if computed then property.WellFormed ∧ optional = false else property.isWord = true)
    (h : property.WellFormed → property.Tallies a) : property.Tallies a := by
  cases computed with
  | true => exact h hwf.1
  | false =>
    have hword : property.isWord = true := hwf
    cases property with
    | identifier x span => simp [Expr.lexemes, Expr.writes]
    | _ => cases hword

theorem tree : TreeInduction (fun e => e.WellFormed → e.Tallies a)
    (fun s => s.WellFormed → s.Tallies a) where
  number _ _ _ := by simp [Expr.lexemes, Expr.count, Expr.writes]
  string _ _ _ := by simp [Expr.lexemes, Expr.count, Expr.writes]
  boolean _ _ _ := by simp [Expr.lexemes, Expr.count, Expr.writes, Kind.angle?]
  null _ _ := by simp [Expr.lexemes, Expr.count, Expr.writes, Kind.angle?]
  this_ _ _ := by simp [Expr.lexemes, Expr.count, Expr.writes]
  identifier _ _ _ := by simp [Expr.lexemes, Expr.count, Expr.writes]
  binary left op right _ hl hr h := by
    simp only [Expr.Tallies, Expr.lexemes, Expr.count, Expr.writes, angleCount_append,
      angleCount_cons, angleCount_parenthesisedIf, angleCount_inPlace, Lexeme.angle?_mark, hl h.1,
      hr h.2]
    omega
  unary _ _ _ ho h := by simp [Expr.lexemes, Expr.count, Expr.writes, ho h]
  update op inFront _ _ ho h := by
    cases inFront <;> simp [Expr.lexemes, Expr.count, Expr.writes, ho h.2]
  member base property computed optional _ hb hp h := by
    have hp := Tallies.property h.2 hp
    cases computed <;> cases optional <;>
      simp [Expr.lexemes, Expr.count, Expr.writes, memberLexemes, Symbol.angle?, hb h.1, hp]
  call _ _ _ hc ha h := by
    have ha := exprs fun e he => ha e he (exprsWellFormed_iff.mp h.2 e he)
    simp [Expr.lexemes, Expr.count, Expr.writes, Symbol.angle?, hc h.1, ha]
  new _ _ _ hc ha h := by
    have ha := exprs fun e he => ha e he (exprsWellFormed_iff.mp h.2 e he)
    simp [Expr.lexemes, Expr.count, Expr.writes, Symbol.angle?, hc h.1, ha]
  conditional _ _ _ _ ht hc ha h := by
    simp [Expr.lexemes, Expr.count, Expr.writes, Symbol.angle?, ht h.1, hc h.2.1, ha h.2.2,
      Nat.add_assoc]
  object _ _ hp h := by
    have hps := properties (propertiesWellFormed_iff.mp h) hp
    simp [Expr.lexemes, Expr.count, Expr.writes, Symbol.angle?, hps]
  array _ _ hi h := by
    have hi := exprs fun e he => hi e he (exprsWellFormed_iff.mp h e he)
    simp [Expr.lexemes, Expr.count, Expr.writes, Symbol.angle?, hi]
  arrowExpression _ _ _ hv h := by
    simp [Expr.lexemes, ArrowBody.lexemes, Expr.count, ArrowBody.count, Expr.writes, Symbol.angle?,
      hv h.2]
  arrowBlock _ _ _ hb h := by
    have hb := stmts fun s hs => hb s hs (stmtsWellFormed_iff.mp h.2.1 s hs)
    simp [Expr.lexemes, ArrowBody.lexemes, Expr.count, ArrowBody.count, Expr.writes, Symbol.angle?,
      hb]
  assignment _ _ _ _ ht hv h := by
    simp [Expr.lexemes, Expr.count, Expr.writes, ht h.2.1, hv h.2.2]
  expression _ hv h := by
    simp [Stmt.lexemes, Stmt.count, Stmt.writes, Stmt.isTag, Symbol.angle?, hv h]
  declaration _ _ hd h := by
    have hds := declarators fun d hm e he => hd d hm e he
      (exprWellFormed?_iff.mp (declaratorsWellFormed_iff.mp h.2 d hm).2 e he)
    simp [Stmt.lexemes, Stmt.count, Stmt.writes, Stmt.isTag, Symbol.angle?, hds]
  function _ _ _ decorator hb _ h := by
    have hb := stmts fun s hs => hb s hs (stmtsWellFormed_iff.mp h.2.2.1 s hs)
    obtain rfl : decorator = none := Option.isNone_iff_eq_none.mp h.2.2.2.2
    simp [Stmt.lexemes, decoratorLexemes?, Stmt.count, countDecorator?, Stmt.writes, Stmt.isTag,
      Symbol.angle?, hb]
  return_ value hv h := by
    cases value with
    | none => simp [Stmt.lexemes, Stmt.count, countExpr?, Stmt.writes, Stmt.isTag, Symbol.angle?]
    | some e =>
      simp [Stmt.lexemes, Stmt.count, countExpr?, Stmt.writes, Stmt.isTag, Symbol.angle?,
        hv e rfl h]
  if_ _ _ _ ht hc ha h := by
    have ha := alternate fun s hs => ha s hs (stmtWellFormed?_iff.mp h.2.2.1 s hs)
    simp [Stmt.lexemes, Stmt.count, Stmt.writes, Stmt.isTag, Symbol.angle?, ht h.1, hc h.2.1, ha,
      Nat.add_assoc]
  while_ _ _ ht hb h := by
    simp [Stmt.lexemes, Stmt.count, Stmt.writes, Stmt.isTag, Symbol.angle?, ht h.1, hb h.2]
  for_ init _ _ _ _ he hd ht hu hb h := by
    obtain ⟨hform, hwf, htest, hupdate, hbody⟩ := h
    have hi := forInit hform (fun value hv => he value hv (by subst hv; exact hwf))
      fun kind ds hds d hm e hme => hd kind ds hds d hm e hme (by
        subst hds
        exact exprWellFormed?_iff.mp (declaratorsWellFormed_iff.mp hwf.2 d hm).2 e hme)
    have ht := forPart fun e hm => ht e hm (exprWellFormed?_iff.mp htest e hm)
    have hu := forPart fun e hm => hu e hm (exprWellFormed?_iff.mp hupdate e hm)
    simp [Stmt.lexemes, Stmt.count, Stmt.writes, Stmt.isTag, Symbol.angle?, hi, ht, hu, hb hbody,
      Nat.add_assoc]
  block _ hb h := by
    have hb := stmts fun s hs => hb s hs (stmtsWellFormed_iff.mp h s hs)
    simp [Stmt.lexemes, Stmt.count, Stmt.writes, Stmt.isTag, Symbol.angle?, hb]
  break_ _ := by simp [Stmt.lexemes, Stmt.count, Stmt.writes, Stmt.isTag, Symbol.angle?]
  continue_ _ := by simp [Stmt.lexemes, Stmt.count, Stmt.writes, Stmt.isTag, Symbol.angle?]
  import_ _ _ _ _ := by simp [Stmt.lexemes, Stmt.count, Stmt.writes, Stmt.isTag]
  export_ _ hd h := by simp [Stmt.lexemes, Stmt.count, Stmt.writes, Stmt.isTag, hd h.2]
  empty _ := by simp [Stmt.lexemes, Stmt.count, Stmt.writes, Stmt.isTag, Symbol.angle?]
  elementStart _ _ _ ha h := by
    have has := attributes fun x e hx => ha x e hx (attributesWellFormed_iff.mp h.2 _ hx).2
    simp [Stmt.lexemes, Stmt.count, Stmt.writes, Stmt.isTag, Symbol.angle?, has]
  elementEnd _ _ _ := by simp [Stmt.lexemes, Stmt.count, Stmt.writes, Stmt.isTag, Symbol.angle?]
  element _ _ _ ha h := by
    have has := attributes fun x e hx => ha x e hx (attributesWellFormed_iff.mp h.2 _ hx).2
    simp [Stmt.lexemes, Stmt.count, Stmt.writes, Stmt.isTag, Symbol.angle?, has]
  decorator d ha h := by
    obtain ⟨name, arguments, span⟩ := d
    have ha := exprs fun e he => ha e he (exprsWellFormed_iff.mp h.2 e he)
    simp [Stmt.lexemes, Decorator.lexemes, Stmt.count, Decorator.count, Stmt.writes, Stmt.isTag,
      Symbol.angle?, ha]

end Tallies

/-! ### Programs -/

/-- A token is one of these marks if its kind says so. -/
theorem Kind.beq_symbol (a : Angle) (k : Kind) :
    (k == .symbol a.symbol) = (k.angle? == some a) := by
  cases k with
  | symbol m => cases a <;> cases m <;> rfl
  | _ => rfl

/-- Tokens have as many marks as the lexemes they show, and those behind. -/
theorem countP_of_shows (a : Angle) {ls : List Lexeme} {ahead rest : List Token}
    (h : Shows ls ahead rest) :
    ahead.countP (·.kind == .symbol a.symbol) =
      angleCount a ls + rest.countP (·.kind == .symbol a.symbol) := by
  induction ls generalizing ahead with
  | nil =>
    obtain rfl : ahead = rest := h
    simp
  | cons l ls ih =>
    obtain ⟨t, ahead', rfl, ⟨hkind, -⟩, hshows⟩ := h
    rw [List.countP_cons, ih hshows, angleCount_cons, Kind.beq_symbol, hkind]
    cases l.kind.angle? == some a
    · simp
    · simp only [if_true, Bool.toNat_true]
      omega

/-- The tokens of the text of a program have a mark as often as the program is written with it. -/
theorem countP_print {p : Program} (hwf : p.WellFormed) {tokens : List Token} {last : Token}
    (hshows : Shows (stmtsLexemes p.body) tokens [last]) (hlast : last.kind = .endOfInput)
    (a : Angle) :
    tokens.countP (·.kind == .symbol a.symbol) = p.count (Expr.writes a) (Stmt.writes a) := by
  have htally := Tallies.stmts (a := a) fun s hs =>
    Tallies.tree.stmt s (stmtsWellFormed_iff.mp hwf.1 s hs)
  rw [countP_of_shows a hshows, htally, Program.count]
  simp [hlast]

/-- Whether an expression has this operator. -/
def Expr.isBinary (op : BinaryOp) : Expr → Bool
  | binary _ o _ _ => o == op
  | _ => false

/-- Tags are statements. -/
theorem writes_tagStart :
    Expr.writes .tagStart = (fun _ => false) ∧ Stmt.writes .tagStart = Stmt.isTag := by
  constructor
  · funext e
    cases e with
    | binary left op right span => cases op <;> rfl
    | _ => rfl
  · funext s
    simp [Stmt.writes]

/-- Comparisons are expressions. -/
theorem writes_comparison (op : BinaryOp) {a : Angle} (h : op.symbol.angle? = some a) :
    Expr.writes a = Expr.isBinary op ∧ Stmt.writes a = fun _ => false := by
  constructor
  · funext e
    cases e with
    | binary left o right span =>
      rw [Expr.writes, ← h]
      cases op <;> cases h <;> cases o <;> rfl
    | _ => rfl
  · funext s
    have hne : (Angle.tagStart == a) = false := by
      cases op <;> cases h <;> rfl
    simp [Stmt.writes, hne]

/-- The text of a parsed program whose comparisons do not look like tags has one start of a tag for
each tag of the program, one `<` for each `<` and one `<=` for each `<=`. -/
theorem tokenize_print_tags {source : String} {p : Program} (h : parse source = .ok p)
    (hkeeps : p.keepsComparisons = true) :
    ∃ tokens, tokenize p.print = .ok tokens ∧
      tokens.countP (·.kind == .symbol .tagStart) = p.count (fun _ => false) Stmt.isTag ∧
      tokens.countP (·.kind == .symbol .less) = p.count (Expr.isBinary .less) (fun _ => false) ∧
      tokens.countP (·.kind == .symbol .lessEqual) =
        p.count (Expr.isBinary .lessEqual) (fun _ => false) := by
  have hwf := parse_wellFormed h
  obtain ⟨tokens, last, htokens, hshows, hlast⟩ := tokenize_print_of_keepsComparisons hwf hkeeps
  have hcount := countP_print hwf hshows hlast
  refine ⟨tokens, htokens, ?_, ?_, ?_⟩
  · rw [← writes_tagStart.1, ← writes_tagStart.2]
    exact hcount .tagStart
  · have hless := writes_comparison .less rfl
    rw [← hless.1, ← hless.2]
    exact hcount .less
  · have hless := writes_comparison .lessEqual rfl
    rw [← hless.1, ← hless.2]
    exact hcount .lessEqual

/-- Comparisons of strings and keywords in brackets, and of an update, a constant and an object
between statements. -/
def comparisonsText : String :=
  "function f(a) \x7b\n<p on=\x7b'x' < a.b\x7d>\nif ('y' <= a.if) a++ < 3\n" ++
    "(null < \x7bk: [a.new < 1]\x7d)\n</p>\n(\x7bc: 2\x7d < a)\n@g('z' < 4)\n\x7d"

theorem tokenize_print_comparisonsText :
    ∃ p, parse comparisonsText = .ok p ∧ p.keepsComparisons = true ∧
      ∃ tokens, tokenize p.print = .ok tokens ∧
        tokens.countP (·.kind == .symbol .tagStart) = p.count (fun _ => false) Stmt.isTag ∧
        tokens.countP (·.kind == .symbol .less) = p.count (Expr.isBinary .less) (fun _ => false) ∧
        tokens.countP (·.kind == .symbol .lessEqual) =
          p.count (Expr.isBinary .lessEqual) (fun _ => false) := by
  have hkeeps : (parse comparisonsText).toOption.any Program.keepsComparisons = true := by
    decide +kernel
  cases h : parse comparisonsText with
  | error e =>
    rw [h] at hkeeps
    cases hkeeps
  | ok p =>
    rw [h] at hkeeps
    exact ⟨p, rfl, hkeeps, tokenize_print_tags h hkeeps⟩

/-- A string in parentheses on the left of a comparison. -/
def stringComparison : String := "(\"a\") < b"

/-- The parentheses around a string are not printed, and then the comparison is a tag. -/
theorem tokenize_print_stringComparison :
    ∃ p tokens, parse stringComparison = .ok p ∧ tokenize p.print = .ok tokens ∧
      p.count (fun _ => false) Stmt.isTag = 0 ∧
      p.count (Expr.isBinary .less) (fun _ => false) = 1 ∧
      tokens.countP (·.kind == .symbol .tagStart) = 1 ∧
      tokens.countP (·.kind == .symbol .less) = 0 := by
  have hcheck : (parse stringComparison).toOption.any (fun p =>
      (tokenize p.print).toOption.any fun tokens =>
        p.count (fun _ => false) Stmt.isTag = 0 ∧
        p.count (Expr.isBinary .less) (fun _ => false) = 1 ∧
        tokens.countP (·.kind == .symbol .tagStart) = 1 ∧
        tokens.countP (·.kind == .symbol .less) = 0) = true := by
    decide +kernel
  cases hp : parse stringComparison with
  | error e =>
    rw [hp] at hcheck
    cases hcheck
  | ok p =>
    rw [hp] at hcheck
    cases htokens : tokenize p.print with
    | error e => simp [Except.toOption, htokens] at hcheck
    | ok tokens => exact ⟨p, tokens, rfl, htokens, by simpa [Except.toOption, htokens] using hcheck⟩

end MarkupScript
