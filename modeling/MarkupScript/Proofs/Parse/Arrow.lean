import MarkupScript.Proofs.Parse.Reads
import MarkupScript.Proofs.Tree.Induction

/-!
# Looking ahead for an arrow

Whether a parenthesis opens the parameters of an arrow function is seen at the token behind its
partner. In a printed program parentheses come in pairs, so the partner is the one that belongs to
it, and an arrow stands behind it only if an arrow function was printed.
-/

namespace MarkupScript

namespace Parse

/-! ### Parentheses in pairs -/

/-- Whether a token neither opens nor closes a parenthesis nor ends the input. -/
def isFlat : Kind → Bool
  | .symbol .leftParen | .symbol .rightParen | .endOfInput => false
  | _ => true

theorem isFlat_ofWord (text : String) : isFlat (Kind.ofWord text) = true := by
  unfold Kind.ofWord
  split
  · rfl
  · repeat' split
    all_goals rfl

/-- What follows the parenthesis that `depth` open ones end with. -/
def behindParens : Nat → List Token → Option (List Token)
  | _, [] => none
  | depth, token :: rest =>
    match token.kind with
    | .symbol .leftParen => behindParens (depth + 1) rest
    | .symbol .rightParen => if depth ≤ 1 then some rest else behindParens (depth - 1) rest
    | .endOfInput => none
    | _ => behindParens depth rest

theorem arrowAfterParens_eq (depth : Nat) (ahead : List Token) :
    arrowAfterParens depth ahead =
      (behindParens depth ahead).any (·.head?.any (·.kind == .symbol .arrow)) := by
  fun_induction behindParens depth ahead with
  | case1 => rfl
  | case2 depth t ahead hk ih => rw [arrowAfterParens, hk, ih]
  | case3 depth t ahead hk hdepth =>
    rw [arrowAfterParens, hk]
    exact if_pos hdepth
  | case4 depth t ahead hk hdepth ih =>
    rw [arrowAfterParens, hk, ← ih]
    exact if_neg hdepth
  | case5 depth t ahead hk => rw [arrowAfterParens, hk]; rfl
  | case6 depth t ahead h₁ h₂ h₃ ih => simp [arrowAfterParens, ih]

theorem behindParens_flat {t : Token} (h : isFlat t.kind = true) (depth : Nat)
    (ahead : List Token) : behindParens depth (t :: ahead) = behindParens depth ahead := by
  rw [behindParens]
  split <;> simp_all [isFlat]

theorem behindParens_open {t : Token} (h : t.kind = .symbol .leftParen) (depth : Nat)
    (ahead : List Token) : behindParens depth (t :: ahead) = behindParens (depth + 1) ahead := by
  rw [behindParens, h]

theorem behindParens_close {t : Token} (h : t.kind = .symbol .rightParen) (depth : Nat)
    (ahead : List Token) :
    behindParens (depth + 1) (t :: ahead) =
      if depth = 0 then some ahead else behindParens depth ahead := by
  rw [behindParens, h]
  simp

/-- Looking for the partner of a parenthesis passes over these lexemes. -/
def Balanced (ls : List Lexeme) : Prop :=
  ∀ ahead rest depth, Shows ls ahead rest →
    behindParens (depth + 1) ahead = behindParens (depth + 1) rest

namespace Balanced

theorem nil : Balanced [] := by
  rintro ahead rest depth rfl
  rfl

theorem append {ls ms : List Lexeme} (hl : Balanced ls) (hm : Balanced ms) :
    Balanced (ls ++ ms) := by
  intro ahead rest depth hs
  obtain ⟨middle, h₁, h₂⟩ := shows_append.mp hs
  rw [hl ahead middle depth h₁, hm middle rest depth h₂]

theorem cons {l : Lexeme} {ls : List Lexeme} (hl : isFlat l.kind = true) (h : Balanced ls) :
    Balanced (l :: ls) := by
  rintro ahead rest depth ⟨t, ahead', rfl, ⟨ht, -⟩, hs⟩
  rw [behindParens_flat (ht ▸ hl), h ahead' rest depth hs]

theorem word (text : String) {ls : List Lexeme} (h : Balanced ls) :
    Balanced (.word text :: ls) :=
  cons (isFlat_ofWord text) h

theorem parens {ls ms : List Lexeme} (h : Balanced ls) (hm : Balanced ms) :
    Balanced (.mark .leftParen :: (ls ++ .mark .rightParen :: ms)) := by
  rintro ahead rest depth ⟨t, ahead', rfl, ⟨ht, -⟩, hs⟩
  obtain ⟨middle, h₁, u, rest', rfl, ⟨hu, -⟩, h₂⟩ := shows_append.mp hs
  rw [behindParens_open ht, h ahead' _ (depth + 1) h₁, behindParens_close hu,
    if_neg (Nat.succ_ne_zero depth)]
  exact hm rest' rest depth h₂

theorem parensIf {ls : List Lexeme} (h : Balanced ls) (needed : Bool) :
    Balanced (lexemesParenthesisedIf needed ls) := by
  cases needed
  · exact h
  · exact h.parens nil

theorem inPlace {e : Expr} {ls : List Lexeme} (h : Balanced ls) (least : Nat) :
    Balanced (e.lexemesInPlace least ls) :=
  h.parensIf _

theorem guard {ls : List Lexeme} (h : Balanced ls) : Balanced (guardLexemes ls) := h.parensIf _

theorem commas {lss : List (List Lexeme)} (h : ∀ ls ∈ lss, Balanced ls) :
    Balanced (commaLexemes lss) := by
  induction lss with
  | nil => exact nil
  | cons ls lss ih =>
    cases lss with
    | nil => exact h ls (by simp)
    | cons ms lss => exact (h ls (by simp)).append (cons rfl (ih fun ks hk => h ks (by simp [hk])))

theorem flatten {lss : List (List Lexeme)} (h : ∀ ls ∈ lss, Balanced ls) :
    Balanced lss.flatten := by
  induction lss with
  | nil => exact nil
  | cons ls lss ih => exact (h ls (by simp)).append (ih fun ks hk => h ks (by simp [hk]))

theorem onSameLine {ls : List Lexeme} (h : Balanced ls) : Balanced (onSameLine ls) :=
  fun ahead rest depth hs => h ahead rest depth hs.of_onSameLine

theorem stmts {ss : List Stmt} (h : ∀ s ∈ ss, Balanced s.lexemes) : Balanced (stmtsLexemes ss) := by
  induction ss with
  | nil => exact nil
  | cons s ss ih =>
    have hss := ih fun t ht => h t (by simp [ht])
    exact (h s (by simp)).append fun ahead rest depth hs => hss ahead rest depth hs.of_onNewLine

theorem params (xs : List String) : Balanced (paramLexemes xs) := by
  refine parens (commas fun ls hls => ?_) nil
  obtain ⟨x, -, rfl⟩ := List.mem_map.mp hls
  exact word x nil

theorem arguments {es : List Expr} (h : ∀ e ∈ es, Balanced e.lexemes) :
    Balanced (commaLexemes (exprsLexemes es)) := by
  rw [exprsLexemes_eq]
  refine commas fun ls hls => ?_
  obtain ⟨e, he, rfl⟩ := List.mem_map.mp hls
  exact h e he

theorem property {p : Property} (h : Balanced p.value.lexemes) : Balanced p.lexemes := by
  unfold Property.lexemes keyLexeme
  split
  · exact word _ nil
  · split
    · exact word _ (cons rfl h)
    · exact cons rfl (cons rfl h)

theorem declarators {ds : List Declarator} (h : ∀ d ∈ ds, ∀ e ∈ d.init, Balanced e.lexemes) :
    Balanced (commaLexemes (declaratorsLexemes ds)) := by
  rw [declaratorsLexemes_eq]
  refine commas fun ls hls => ?_
  obtain ⟨⟨name, init⟩, hd, rfl⟩ := List.mem_map.mp hls
  cases init with
  | none => exact word _ nil
  | some e => exact word _ (cons rfl (h _ hd e rfl))

theorem attributes {as : List Attribute} (h : ∀ x e, .braced x e ∈ as → Balanced e.lexemes) :
    Balanced (attributesLexemes as) := by
  rw [attributesLexemes_eq]
  refine flatten fun ls hls => ?_
  obtain ⟨a, ha, rfl⟩ := List.mem_map.mp hls
  cases a with
  | bare name => exact cons rfl nil
  | text name value => exact cons rfl (cons rfl (cons rfl nil))
  | braced name value =>
    exact cons rfl (cons rfl (cons rfl ((h name value ha).append (cons rfl nil))))

theorem braces {ss : List Stmt} (h : ∀ s ∈ ss, Balanced s.lexemes) :
    Balanced (.mark .leftBrace :: stmtsLexemes ss ++ [.mark .rightBrace]) :=
  cons rfl ((stmts h).append (cons rfl nil))

theorem specifier (s : ImportSpecifier) : Balanced s.lexemes := by
  unfold ImportSpecifier.lexemes
  split
  · exact word _ nil
  · exact word _ (word _ (word _ nil))

theorem importClauses (defaultName : Option String) (specifiers : List ImportSpecifier) :
    ∀ ls ∈ importClauses defaultName specifiers, Balanced ls := by
  intro ls hls
  rcases List.mem_append.mp hls with hls | hls
  · obtain ⟨x, -, rfl⟩ := List.mem_map.mp hls
    exact word _ nil
  · split at hls
    · simp at hls
    · obtain rfl := List.mem_singleton.mp hls
      refine cons rfl ((commas fun ks hks => ?_).append (cons rfl nil))
      obtain ⟨s, -, rfl⟩ := List.mem_map.mp hks
      exact specifier s

theorem import_ (defaultName : Option String) (specifiers : List ImportSpecifier)
    (source : String) : Balanced (importLexemes defaultName specifiers source) := by
  have tail : Balanced [.string source, .mark .semicolon] := cons rfl (cons rfl nil)
  unfold importLexemes
  simp only
  split
  · exact cons rfl tail
  · exact cons rfl ((commas (importClauses defaultName specifiers)).append (word _ tail))

theorem decorator {d : Decorator} (h : ∀ e ∈ d.arguments, Balanced e.lexemes) :
    Balanced d.lexemes := by
  obtain ⟨name, arguments, span⟩ := d
  exact cons rfl (word _ ((Balanced.arguments h).parens nil))

theorem decorator? {d : Option Decorator} (h : ∀ x ∈ d, ∀ e ∈ x.arguments, Balanced e.lexemes) :
    Balanced (decoratorLexemes? d) := by
  cases d with
  | none => exact nil
  | some d => exact Balanced.decorator (h d rfl)

theorem else_ {alternate : Option Stmt} (h : ∀ s ∈ alternate, Balanced s.lexemes) :
    Balanced (elseLexemes alternate) := by
  cases alternate with
  | none => exact nil
  | some s => exact cons rfl (h s rfl)

theorem forPart {e : Option Expr} (h : ∀ x ∈ e, Balanced x.lexemes) :
    Balanced (forPartLexemes e) := by
  cases e with
  | none => exact nil
  | some e => exact (h e rfl).inPlace _

theorem forInit {init : Option Stmt}
    (he : ∀ value, init = some (.expression value) → Balanced value.lexemes)
    (hd : ∀ kind ds, init = some (.declaration kind ds) →
      ∀ d ∈ ds, ∀ e ∈ d.init, Balanced e.lexemes) : Balanced (forInitLexemes init) := by
  unfold forInitLexemes
  split
  · exact cons rfl (declarators (hd _ _ rfl))
  · exact (he _ rfl).inPlace _
  · exact nil

theorem tree : TreeInduction (fun e => Balanced e.lexemes) (fun s => Balanced s.lexemes) where
  number value _ := by
    rw [Expr.lexemes, numberLexeme]
    split
    · exact cons rfl nil
    · exact word _ nil
  string _ _ := cons rfl nil
  boolean _ _ := cons rfl nil
  null _ := cons rfl nil
  this_ _ := cons rfl nil
  identifier _ _ := word _ nil
  binary left op right _ hl hr :=
    ((hl.inPlace _).parensIf _).append (cons (by cases op <;> rfl) ((hr.inPlace _).parensIf _))
  unary op operand _ h := cons (by cases op <;> rfl) (h.inPlace _)
  update op inFront operand _ h := by
    cases inFront with
    | true => exact cons (by cases op <;> rfl) (h.inPlace _)
    | false => exact (h.inPlace _).append (cons (by cases op <;> rfl) nil)
  member object property computed optional _ ho hp := by
    simp only [Expr.lexemes, memberLexemes, List.append_assoc, List.cons_append]
    have ho := (ho.inPlace (e := object) Level.call).parensIf object.isNumber
    have hp := hp.inPlace (e := property) Level.any
    split
    · exact ho.append (cons rfl (cons rfl (hp.append (cons rfl nil))))
    · exact ho.append (cons rfl (hp.append (cons rfl nil)))
    · exact ho.append (cons rfl hp)
    · exact ho.append (cons rfl hp)
  call callee arguments _ hc ha := by
    simp only [Expr.lexemes, List.append_assoc, List.cons_append]
    exact (hc.inPlace _).append ((Balanced.arguments ha).parens nil)
  new callee arguments _ hc ha := by
    simp only [Expr.lexemes, List.append_assoc, List.cons_append]
    exact cons rfl (((hc.inPlace _).parensIf _).append ((Balanced.arguments ha).parens nil))
  conditional test consequent alternate _ ht hc ha := by
    simp only [Expr.lexemes, List.append_assoc, List.cons_append]
    exact (ht.inPlace _).append (cons rfl ((hc.inPlace _).append (cons rfl (ha.inPlace _))))
  object properties _ h := by
    simp only [Expr.lexemes, propertiesLexemes_eq, List.cons_append]
    refine cons rfl ((commas fun ls hls => ?_).append (cons rfl nil))
    obtain ⟨p, hp, rfl⟩ := List.mem_map.mp hls
    exact property (h p hp)
  array items _ h := cons rfl ((Balanced.arguments h).append (cons rfl nil))
  arrowExpression params value _ h :=
    (Balanced.params params).append (cons rfl (h.inPlace _).guard)
  arrowBlock params body _ h := (Balanced.params params).append (cons rfl (braces h))
  assignment target op value _ ht hv :=
    (ht.inPlace _).append (cons (by cases op <;> rfl) (hv.inPlace _))
  expression value h := (h.inPlace _).guard.append (cons rfl nil)
  declaration kind ds h := cons rfl ((declarators h).append (cons rfl nil))
  function name params body decorator hb hd := by
    have hrest := (Balanced.params params).append (braces hb)
    simp only [Stmt.lexemes, List.append_assoc, List.cons_append] at hrest ⊢
    exact (decorator? hd).append (cons rfl (word name hrest))
  return_ value h := by
    cases value with
    | none => exact cons rfl (cons rfl nil)
    | some value =>
      exact cons rfl (((h value rfl).inPlace _).onSameLine.append (cons rfl nil))
  if_ test consequent alternate ht hc ha := by
    simp only [Stmt.lexemes, List.append_assoc, List.cons_append]
    exact cons rfl ((ht.inPlace _).parens (hc.append (else_ ha)))
  while_ test body ht hb := by
    simp only [Stmt.lexemes, List.cons_append]
    exact cons rfl ((ht.inPlace _).parens hb)
  for_ init test update body _ he hd ht hu hb := by
    have hhead := (forInit he hd).append (cons (l := .mark .semicolon) rfl
      ((forPart ht).append (cons (l := .mark .semicolon) rfl (forPart hu))))
    have hloop := cons (l := .keyword .for_) rfl (hhead.parens hb)
    simpa only [Stmt.lexemes, List.append_assoc, List.cons_append] using hloop
  block body h := by
    unfold Stmt.lexemes
    exact braces h
  break_ := cons rfl (cons rfl nil)
  continue_ := cons rfl (cons rfl nil)
  import_ defaultName specifiers source := by
    unfold Stmt.lexemes
    exact Balanced.import_ defaultName specifiers source
  export_ declared h := by
    unfold Stmt.lexemes
    exact cons rfl h
  empty := cons rfl nil
  elementStart name as _ h := by
    unfold Stmt.lexemes
    exact cons rfl (cons rfl ((attributes h).append (cons rfl nil)))
  elementEnd name _ := by
    unfold Stmt.lexemes
    exact cons rfl (cons rfl (cons rfl (cons rfl nil)))
  element name as _ h := by
    unfold Stmt.lexemes
    exact cons rfl (cons rfl ((attributes h).append (cons rfl (cons rfl nil))))
  decorator d h := by
    unfold Stmt.lexemes
    exact Balanced.decorator h

end Balanced

end Parse

end MarkupScript
