import Mathlib.Tactic.TFAE
import MarkupScript.Proofs.Json.Text
import MarkupScript.Proofs.Tree.Every
import MarkupScript.Tree.Json

/-!
# Programs and their documents

The document of a program shows the program, spans included: programs with the same document are
equal. The member `type` tells the form of an expression or statement. What has no `type` is told by
its key, as the body of an arrow function, or by the kind of its value, as the value of an attribute.
Only numbers that are not finite are lost, because all of them are written as `null`.
-/

namespace MarkupScript

namespace Json

/-! ### Taking documents apart -/

theorem Same.opening_eq {a b : Json} (h : Same a b) : a.opening = b.opening := by
  cases h with
  | scalar _ _ htext =>
    have happend : (pretty 0 a).toList ++ [] = (pretty 0 b).toList ++ [] := by rw [htext]
    exact opening_inj happend
  | array => rfl
  | object => rfl

@[simp] theorem same_string {s t : String} : Same (string s) (string t) ↔ s = t := by
  refine ⟨fun h => ?_, fun h => h ▸ .scalar rfl rfl rfl⟩
  cases h with
  | scalar _ _ htext =>
    rw [pretty_string, pretty_string] at htext
    have happend : (stringText s).toList ++ [] = (stringText t).toList ++ [] := by rw [htext]
    exact (stringText_inj happend).1

@[simp] theorem same_bool {a b : Bool} : Same (bool a) (bool b) ↔ a = b := by
  refine ⟨fun h => ?_, fun h => h ▸ .scalar rfl rfl rfl⟩
  cases h with
  | scalar _ _ htext =>
    cases a <;> cases b <;> first | rfl | exact absurd htext (show "true" ≠ "false" by decide) |
      exact absurd htext (show "false" ≠ "true" by decide)

@[simp] theorem same_natural {m n : Nat} : Same (natural m) (natural n) ↔ m = n := by
  refine ⟨fun h => ?_, fun h => h ▸ .scalar rfl rfl rfl⟩
  cases h with
  | scalar _ _ htext =>
    rw [pretty_natural, pretty_natural] at htext
    have hdigits : Nat.toDigits 10 m = Nat.toDigits 10 n := by
      rw [← Nat.toList_repr, htext, Nat.toList_repr]
    rw [← Nat.ofDigitChars_ten_toDigits (n := m), hdigits, Nat.ofDigitChars_ten_toDigits]

/-- A finite number is not written as another one, and not as `null`. -/
theorem eq_of_same_number {x y : Double} (hx : x.isFinite = true)
    (h : Same (number x) (number y)) : x = y := by
  obtain ⟨text, hread, htext⟩ : ∃ text, Double.read? text = some x ∧ x.json? = some text := by
    cases x with
    | finite => exact ⟨_, Double.read?_json rfl, rfl⟩
    | _ => cases hx
  cases h with
  | scalar _ _ hsame =>
    rw [pretty_number, pretty_number, htext, Option.getD_some] at hsame
    cases hy : y.json? with
    | none =>
      rw [hy, Option.getD_none] at hsame
      have hnull : Double.read? "null" = none := by decide
      rw [hsame, hnull] at hread
      cases hread
    | some other =>
      rw [hy, Option.getD_some] at hsame
      exact Double.json?_inj hx (by rw [htext, hy, hsame])

theorem Same.items {as bs : List Json} (h : Same (.array as) (.array bs)) :
    List.Forall₂ Same as bs := by
  cases h with
  | scalar ha => cases ha
  | array hall => exact hall

theorem Same.members {ms ns : List (String × Json)} (h : Same (.object ms) (.object ns))
    (key : String) : Option.Rel Same (ms.lookup key) (ns.lookup key) := by
  cases h with
  | scalar ha => cases ha
  | object hall => exact hall key

theorem lookup_eq_none_of_notMem {key : String} {ms : List (String × Json)}
    (h : key ∉ ms.map Prod.fst) : ms.lookup key = none := by
  rw [List.lookup_eq_none_iff]
  intro m hm
  rw [bne_iff_ne]
  rintro rfl
  exact h (List.mem_map_of_mem hm)

/-- Objects that start with the same key are compared member by member. -/
@[simp] theorem same_object_cons {key : String} {a b : Json} {ms ns : List (String × Json)}
    (hms : key ∉ ms.map Prod.fst) (hns : key ∉ ns.map Prod.fst) :
    Same (object ((key, a) :: ms)) (object ((key, b) :: ns)) ↔
      Same a b ∧ Same (object ms) (object ns) := by
  constructor
  · intro h
    refine ⟨?_, .object fun k => ?_⟩
    · have hfirst := h.members key
      rw [List.lookup_cons, List.lookup_cons, beq_self_eq_true] at hfirst
      cases hfirst with
      | some hab => exact hab
    · by_cases hk : k = key
      · subst hk
        rw [lookup_eq_none_of_notMem hms, lookup_eq_none_of_notMem hns]
        exact .none
      · have hrest := h.members k
        rwa [List.lookup_cons, List.lookup_cons, beq_false_of_ne hk] at hrest
  · rintro ⟨hab, h⟩
    refine .object fun k => ?_
    rw [List.lookup_cons, List.lookup_cons]
    cases k == key with
    | true => exact .some hab
    | false => exact h.members k

@[simp] theorem same_object_nil : Same (object []) (object []) := .object fun _ => .none

@[simp] theorem not_same_nil_cons {m : String × Json} {ms : List (String × Json)} :
    ¬ Same (object []) (object (m :: ms)) := by
  intro h
  have hfirst := h.members m.1
  rw [List.lookup_cons, beq_self_eq_true] at hfirst
  cases hfirst

@[simp] theorem not_same_cons_nil {m : String × Json} {ms : List (String × Json)} :
    ¬ Same (object (m :: ms)) (object []) := by
  intro h
  have hfirst := h.members m.1
  rw [List.lookup_cons, beq_self_eq_true] at hfirst
  cases hfirst

/-- The member `type` tells documents apart. -/
theorem Same.type_eq {t u : String} {ms ns : List (String × Json)}
    (h : Same (tagged t ms) (tagged u ns)) : t = u := by
  have hfirst := h.members "type"
  rw [List.lookup_cons, List.lookup_cons, beq_self_eq_true] at hfirst
  cases hfirst with
  | some htypes => exact same_string.mp htypes

theorem Same.untagged {t : String} {ms ns : List (String × Json)}
    (h : Same (tagged t ms) (tagged t ns)) (hms : "type" ∉ ms.map Prod.fst)
    (hns : "type" ∉ ns.map Prod.fst) : Same (.object ms) (.object ns) :=
  ((same_object_cons hms hns).mp h).2

/-- Whether nothing else has the document that something has. -/
def Determines (f : α → Json) (a : α) : Prop := ∀ b, Same (f a) (f b) → a = b

theorem eq_of_same_map {f : α → Json} {as bs : List α} (h : ∀ a ∈ as, Determines f a)
    (hsame : Same (array (as.map f)) (array (bs.map f))) : as = bs := by
  have hall := hsame.items
  rw [List.forall₂_map_left_iff, List.forall₂_map_right_iff] at hall
  clear hsame
  induction hall with
  | nil => rfl
  | cons hab _ ih =>
    rw [h _ List.mem_cons_self _ hab, ih fun c hc => h c (List.mem_cons_of_mem _ hc)]

theorem eq_of_same_ofOption {f : α → Json} {x y : Option α} (hnull : ∀ a, (f a).opening ≠ none)
    (h : ∀ a ∈ x, Determines f a) (hsame : Same (ofOption f x) (ofOption f y)) : x = y := by
  cases x with
  | none =>
    cases y with
    | none => rfl
    | some b => exact absurd hsame.opening_eq.symm (hnull b)
  | some a =>
    cases y with
    | none => exact absurd hsame.opening_eq (hnull a)
    | some b => rw [h a rfl b hsame]

end Json

open Json

/-! ### Words -/

theorem BinaryOp.tag_inj {a b : BinaryOp} (h : a.tag = b.tag) : a = b := by
  cases a <;> cases b <;> first | rfl | exact absurd h (of_decide_eq_false rfl)

theorem UnaryOp.tag_inj {a b : UnaryOp} (h : a.tag = b.tag) : a = b := by
  cases a <;> cases b <;> first | rfl | exact absurd h (of_decide_eq_false rfl)

theorem UpdateOp.tag_inj {a b : UpdateOp} (h : a.tag = b.tag) : a = b := by
  cases a <;> cases b <;> first | rfl | exact absurd h (of_decide_eq_false rfl)

theorem AssignOp.tag_inj {a b : AssignOp} (h : a.tag = b.tag) : a = b := by
  cases a <;> cases b <;> first | rfl | exact absurd h (of_decide_eq_false rfl)

theorem VariableKind.spelling_inj {a b : VariableKind}
    (h : a.keyword.spelling = b.keyword.spelling) : a = b := by
  cases a <;> cases b <;> first | rfl | exact absurd h (of_decide_eq_false rfl)

@[simp] theorem Span.same_toJson {s t : Span} : Same s.toJson t.toJson ↔ s = t := by
  obtain ⟨start, stop, line, column⟩ := s
  obtain ⟨start', stop', line', column'⟩ := t
  simp [Span.toJson]

theorem eq_of_same_names {ms ns : List String} (h : Same (namesToJson ms) (namesToJson ns)) :
    ms = ns :=
  eq_of_same_map (fun _ _ _ => same_string.mp) h

theorem ImportSpecifier.determines (s : ImportSpecifier) : Determines ImportSpecifier.toJson s := by
  obtain ⟨imported, localName⟩ := s
  rintro ⟨imported', localName'⟩ h
  simpa [ImportSpecifier.toJson] using h

/-! ### Lists of parts -/

/-- The document of a property. -/
def Property.toJson (p : Property) : Json :=
  .object [("key", .string p.key), ("value", p.value.toJson), ("shorthand", .bool p.shorthand)]

/-- The document of a declared variable. -/
def Declarator.toJson (d : Declarator) : Json :=
  .object [("name", .string d.name), ("init", exprToJson? d.init)]

/-- The document of an attribute. -/
def Attribute.toJson : Attribute → Json
  | .bare name => .object [("name", .string name)]
  | .text name value => .object [("name", .string name), ("value", .string value)]
  | .braced name value => .object [("name", .string name), ("value", value.toJson)]

theorem exprsToJson_eq_map (es : List Expr) : exprsToJson es = es.map Expr.toJson := by
  induction es with
  | nil => rfl
  | cons e es ih => exact congrArg (e.toJson :: ·) ih

theorem stmtsToJson_eq_map (ss : List Stmt) : stmtsToJson ss = ss.map Stmt.toJson := by
  induction ss with
  | nil => rfl
  | cons s ss ih => exact congrArg (s.toJson :: ·) ih

theorem exprToJson?_eq_ofOption (e : Option Expr) : exprToJson? e = .ofOption Expr.toJson e := by
  cases e <;> rfl

theorem stmtToJson?_eq_ofOption (s : Option Stmt) : stmtToJson? s = .ofOption Stmt.toJson s := by
  cases s <;> rfl

theorem propertiesToJson_eq_map (ps : List Property) :
    propertiesToJson ps = ps.map Property.toJson := by
  induction ps with
  | nil => rfl
  | cons p ps ih =>
    obtain ⟨key, value, shorthand⟩ := p
    exact congrArg (Property.toJson ⟨key, value, shorthand⟩ :: ·) ih

theorem declaratorsToJson_eq_map (ds : List Declarator) :
    declaratorsToJson ds = ds.map Declarator.toJson := by
  induction ds with
  | nil => rfl
  | cons d ds ih =>
    obtain ⟨name, init⟩ := d
    exact congrArg (Declarator.toJson ⟨name, init⟩ :: ·) ih

theorem attributesToJson_eq_map (as : List Attribute) :
    attributesToJson as = as.map Attribute.toJson := by
  induction as with
  | nil => rfl
  | cons a as ih =>
    have hcons : attributesToJson (a :: as) = a.toJson :: attributesToJson as := by cases a <;> rfl
    rw [hcons, ih, List.map_cons]

theorem Expr.opening_toJson (e : Expr) : e.toJson.opening = some '{' := by
  cases e <;> rfl

theorem Stmt.opening_toJson (s : Stmt) : s.toJson.opening = some '{' := by
  cases s with
  | function name params body decorator => cases decorator <;> rfl
  | _ => rfl

theorem eq_of_same_expr? {x y : Option Expr} (h : ∀ e ∈ x, Determines Expr.toJson e)
    (hsame : Same (exprToJson? x) (exprToJson? y)) : x = y := by
  rw [exprToJson?_eq_ofOption, exprToJson?_eq_ofOption] at hsame
  exact eq_of_same_ofOption (fun e => by rw [e.opening_toJson]; exact Option.some_ne_none _) h hsame

theorem eq_of_same_stmt? {x y : Option Stmt} (h : ∀ s ∈ x, Determines Stmt.toJson s)
    (hsame : Same (stmtToJson? x) (stmtToJson? y)) : x = y := by
  rw [stmtToJson?_eq_ofOption, stmtToJson?_eq_ofOption] at hsame
  exact eq_of_same_ofOption (fun s => by rw [s.opening_toJson]; exact Option.some_ne_none _) h hsame

theorem eq_of_same_exprs {as bs : List Expr} (h : ∀ e ∈ as, Determines Expr.toJson e)
    (hsame : Same (.array (exprsToJson as)) (.array (exprsToJson bs))) : as = bs := by
  rw [exprsToJson_eq_map, exprsToJson_eq_map] at hsame
  exact eq_of_same_map h hsame

theorem eq_of_same_stmts {as bs : List Stmt} (h : ∀ s ∈ as, Determines Stmt.toJson s)
    (hsame : Same (.array (stmtsToJson as)) (.array (stmtsToJson bs))) : as = bs := by
  rw [stmtsToJson_eq_map, stmtsToJson_eq_map] at hsame
  exact eq_of_same_map h hsame

theorem eq_of_same_properties {as bs : List Property} (h : ∀ p ∈ as, Determines Expr.toJson p.value)
    (hsame : Same (.array (propertiesToJson as)) (.array (propertiesToJson bs))) : as = bs := by
  rw [propertiesToJson_eq_map, propertiesToJson_eq_map] at hsame
  refine eq_of_same_map ?_ hsame
  rintro ⟨key, value, shorthand⟩ hp ⟨key', value', shorthand'⟩ hsame
  obtain ⟨rfl, hvalue, rfl⟩ :
      key = key' ∧ Same value.toJson value'.toJson ∧ shorthand = shorthand' := by
    simpa [Property.toJson] using hsame
  obtain rfl : value = value' := h _ hp value' hvalue
  rfl

theorem eq_of_same_declarators {as bs : List Declarator}
    (h : ∀ d ∈ as, ∀ e ∈ d.init, Determines Expr.toJson e)
    (hsame : Same (.array (declaratorsToJson as)) (.array (declaratorsToJson bs))) : as = bs := by
  rw [declaratorsToJson_eq_map, declaratorsToJson_eq_map] at hsame
  refine eq_of_same_map ?_ hsame
  rintro ⟨name, init⟩ hd ⟨name', init'⟩ hsame
  obtain ⟨rfl, hinit⟩ : name = name' ∧ Same (exprToJson? init) (exprToJson? init') := by
    simpa [Declarator.toJson] using hsame
  obtain rfl : init = init' := eq_of_same_expr? (h _ hd) hinit
  rfl

theorem eq_of_same_attributes {as bs : List Attribute}
    (h : ∀ x e, .braced x e ∈ as → Determines Expr.toJson e)
    (hsame : Same (.array (attributesToJson as)) (.array (attributesToJson bs))) : as = bs := by
  rw [attributesToJson_eq_map, attributesToJson_eq_map] at hsame
  refine eq_of_same_map ?_ hsame
  intro a ha b hsame
  -- A text and an expression are told apart by what they open with.
  have hopening (value : String) (e : Expr) : (string value).opening ≠ e.toJson.opening := by
    rw [e.opening_toJson]
    exact show some '"' ≠ some '{' by decide
  have hleft (value : String) (e : Expr) : ¬ Same (.string value) e.toJson :=
    fun h => hopening value e h.opening_eq
  have hright (value : String) (e : Expr) : ¬ Same e.toJson (.string value) :=
    fun h => hopening value e h.opening_eq.symm
  cases a with
  | bare name => cases b <;> simp_all [Attribute.toJson]
  | text name value => cases b <;> simp_all [Attribute.toJson]
  | braced name value =>
    cases b with
    | braced name' value' =>
      obtain ⟨rfl, hvalue⟩ : name = name' ∧ Same value.toJson value'.toJson := by
        simpa [Attribute.toJson] using hsame
      rw [h name value ha value' hvalue]
    | _ => simp_all [Attribute.toJson]

theorem Decorator.type_notMem (d : Decorator) : "type" ∉ d.members.map Prod.fst := by
  obtain ⟨name, arguments, span⟩ := d
  show "type" ∉ ["name", "arguments", "span"]
  decide

theorem Decorator.determines {d : Decorator} (h : ∀ e ∈ d.arguments, Determines Expr.toJson e) :
    Determines (fun d => .object (Decorator.members d)) d := by
  obtain ⟨name, arguments, span⟩ := d
  rintro ⟨name', arguments', span'⟩ hsame
  obtain ⟨rfl, harguments, rfl⟩ : name = name' ∧
      Same (.array (exprsToJson arguments)) (.array (exprsToJson arguments')) ∧ span = span' := by
    simpa [Decorator.members] using hsame
  obtain rfl : arguments = arguments' := eq_of_same_exprs h harguments
  rfl

/-! ### Expressions -/

namespace Expr

/-- What the document of an expression has as its type. -/
def type : Expr → String
  | number _ _ => "Number" | string _ _ => "String" | boolean _ _ => "Boolean" | null _ => "Null"
  | this_ _ => "This" | identifier _ _ => "Identifier" | binary _ _ _ _ => "Binary"
  | unary _ _ _ => "Unary" | update _ _ _ _ => "Update" | member _ _ _ _ _ => "Member"
  | call _ _ _ => "Call" | new _ _ _ => "New" | conditional _ _ _ _ => "Ternary"
  | object _ _ => "Object" | array _ _ => "Array" | arrow _ _ _ => "Arrow"
  | assignment _ _ _ _ => "Assignment"

theorem toJson_eq_tagged (e : Expr) : ∃ ms, e.toJson = .tagged e.type ms := by
  cases e <;> exact ⟨_, rfl⟩

theorem type_eq {e f : Expr} (h : Same e.toJson f.toJson) : e.type = f.type := by
  obtain ⟨ms, hms⟩ := e.toJson_eq_tagged
  obtain ⟨ns, hns⟩ := f.toJson_eq_tagged
  rw [hms, hns] at h
  exact h.type_eq

theorem parts_of_same {t : String} {a b : Json} {s r : Span}
    (h : Same (.expression t a s) (.expression t b r)) : Same a b ∧ s = r := by
  simpa [Json.expression, tagged] using h

theorem determines_number {value : Double} (hfinite : value.isFinite = true) (s : Span) :
    Determines toJson (.number value s) := by
  intro f h
  cases f with
  | number value' s' =>
    obtain ⟨hvalue, rfl⟩ := parts_of_same h
    rw [eq_of_same_number hfinite hvalue]
  | _ => exact absurd (type_eq h) (of_decide_eq_false rfl)

theorem determines_string (value : String) (s : Span) : Determines toJson (.string value s) := by
  intro f h
  cases f with
  | string value' s' =>
    obtain ⟨hvalue, rfl⟩ := parts_of_same h
    rw [same_string.mp hvalue]
  | _ => exact absurd (type_eq h) (of_decide_eq_false rfl)

theorem determines_boolean (value : Bool) (s : Span) : Determines toJson (.boolean value s) := by
  intro f h
  cases f with
  | boolean value' s' =>
    obtain ⟨hvalue, rfl⟩ := parts_of_same h
    rw [same_bool.mp hvalue]
  | _ => exact absurd (type_eq h) (of_decide_eq_false rfl)

theorem determines_null (s : Span) : Determines toJson (.null s) := by
  intro f h
  cases f with
  | null s' =>
    obtain rfl : s = s' := by
      simpa using h.untagged (by simp) (by simp)
    rfl
  | _ => exact absurd (type_eq h) (of_decide_eq_false rfl)

theorem determines_this (s : Span) : Determines toJson (.this_ s) := by
  intro f h
  cases f with
  | this_ s' =>
    obtain rfl : s = s' := by
      simpa using h.untagged (by simp) (by simp)
    rfl
  | _ => exact absurd (type_eq h) (of_decide_eq_false rfl)

theorem determines_identifier (name : String) (s : Span) :
    Determines toJson (.identifier name s) := by
  intro f h
  cases f with
  | identifier name' s' =>
    obtain ⟨hname, rfl⟩ := parts_of_same h
    rw [same_string.mp hname]
  | _ => exact absurd (type_eq h) (of_decide_eq_false rfl)

theorem determines_binary {left right : Expr} (op : BinaryOp) (s : Span)
    (hl : Determines toJson left) (hr : Determines toJson right) :
    Determines toJson (.binary left op right s) := by
  intro f h
  cases f with
  | binary left' op' right' s' =>
    obtain ⟨hvalue, rfl⟩ := parts_of_same h
    obtain ⟨hleft, hop, hright⟩ : Same left.toJson left'.toJson ∧ op.tag = op'.tag ∧
        Same right.toJson right'.toJson := by simpa using hvalue
    rw [hl _ hleft, BinaryOp.tag_inj hop, hr _ hright]
  | _ => exact absurd (type_eq h) (of_decide_eq_false rfl)

theorem determines_unary (op : UnaryOp) {operand : Expr} (s : Span)
    (ho : Determines toJson operand) : Determines toJson (.unary op operand s) := by
  intro f h
  cases f with
  | unary op' operand' s' =>
    obtain ⟨hvalue, rfl⟩ := parts_of_same h
    obtain ⟨hop, hoperand⟩ : op.tag = op'.tag ∧ Same operand.toJson operand'.toJson := by
      simpa using hvalue
    rw [UnaryOp.tag_inj hop, ho _ hoperand]
  | _ => exact absurd (type_eq h) (of_decide_eq_false rfl)

theorem determines_update (op : UpdateOp) (inFront : Bool) {operand : Expr} (s : Span)
    (ho : Determines toJson operand) : Determines toJson (.update op inFront operand s) := by
  intro f h
  cases f with
  | update op' inFront' operand' s' =>
    obtain ⟨hvalue, rfl⟩ := parts_of_same h
    obtain ⟨hop, rfl, hoperand⟩ : op.tag = op'.tag ∧ inFront = inFront' ∧
        Same operand.toJson operand'.toJson := by simpa using hvalue
    rw [UpdateOp.tag_inj hop, ho _ hoperand]
  | _ => exact absurd (type_eq h) (of_decide_eq_false rfl)

theorem determines_member {object property : Expr} (computed optional : Bool) (s : Span)
    (hb : Determines toJson object) (hp : Determines toJson property) :
    Determines toJson (.member object property computed optional s) := by
  intro f h
  cases f with
  | member object' property' computed' optional' s' =>
    obtain ⟨hvalue, rfl⟩ := parts_of_same h
    obtain ⟨hobject, hproperty, rfl, rfl⟩ : Same object.toJson object'.toJson ∧
        Same property.toJson property'.toJson ∧ computed = computed' ∧ optional = optional' := by
      simpa using hvalue
    rw [hb _ hobject, hp _ hproperty]
  | _ => exact absurd (type_eq h) (of_decide_eq_false rfl)

theorem parts_of_same_call {callee callee' : Expr} {arguments arguments' : List Expr}
    (h : Same (.object [("callee", callee.toJson), ("arguments", .array (exprsToJson arguments))])
      (.object [("callee", callee'.toJson), ("arguments", .array (exprsToJson arguments'))]))
    (hc : Determines toJson callee) (ha : ∀ e ∈ arguments, Determines toJson e) :
    callee = callee' ∧ arguments = arguments' := by
  obtain ⟨hcallee, harguments⟩ : Same callee.toJson callee'.toJson ∧
      Same (.array (exprsToJson arguments)) (.array (exprsToJson arguments')) := by simpa using h
  exact ⟨hc _ hcallee, eq_of_same_exprs ha harguments⟩

theorem determines_call {callee : Expr} {arguments : List Expr} (s : Span)
    (hc : Determines toJson callee) (ha : ∀ e ∈ arguments, Determines toJson e) :
    Determines toJson (.call callee arguments s) := by
  intro f h
  cases f with
  | call callee' arguments' s' =>
    obtain ⟨hvalue, rfl⟩ := parts_of_same h
    obtain ⟨rfl, rfl⟩ := parts_of_same_call hvalue hc ha
    rfl
  | _ => exact absurd (type_eq h) (of_decide_eq_false rfl)

theorem determines_new {callee : Expr} {arguments : List Expr} (s : Span)
    (hc : Determines toJson callee) (ha : ∀ e ∈ arguments, Determines toJson e) :
    Determines toJson (.new callee arguments s) := by
  intro f h
  cases f with
  | new callee' arguments' s' =>
    obtain ⟨hvalue, rfl⟩ := parts_of_same h
    obtain ⟨rfl, rfl⟩ := parts_of_same_call hvalue hc ha
    rfl
  | _ => exact absurd (type_eq h) (of_decide_eq_false rfl)

theorem determines_conditional {test consequent alternate : Expr} (s : Span)
    (ht : Determines toJson test) (hc : Determines toJson consequent)
    (ha : Determines toJson alternate) :
    Determines toJson (.conditional test consequent alternate s) := by
  intro f h
  cases f with
  | conditional test' consequent' alternate' s' =>
    obtain ⟨hvalue, rfl⟩ := parts_of_same h
    obtain ⟨htest, hconsequent, halternate⟩ : Same test.toJson test'.toJson ∧
        Same consequent.toJson consequent'.toJson ∧ Same alternate.toJson alternate'.toJson := by
      simpa using hvalue
    rw [ht _ htest, hc _ hconsequent, ha _ halternate]
  | _ => exact absurd (type_eq h) (of_decide_eq_false rfl)

theorem determines_object {properties : List Property} (s : Span)
    (hp : ∀ p ∈ properties, Determines toJson p.value) :
    Determines toJson (.object properties s) := by
  intro f h
  cases f with
  | object properties' s' =>
    obtain ⟨hvalue, rfl⟩ := parts_of_same h
    rw [eq_of_same_properties hp hvalue]
  | _ => exact absurd (type_eq h) (of_decide_eq_false rfl)

theorem determines_array {items : List Expr} (s : Span) (hi : ∀ e ∈ items, Determines toJson e) :
    Determines toJson (.array items s) := by
  intro f h
  cases f with
  | array items' s' =>
    obtain ⟨hvalue, rfl⟩ := parts_of_same h
    rw [eq_of_same_exprs hi hvalue]
  | _ => exact absurd (type_eq h) (of_decide_eq_false rfl)

theorem determines_arrow (params : List String) {body : ArrowBody} (s : Span)
    (hb : Determines ArrowBody.toJson body) : Determines toJson (.arrow params body s) := by
  intro f h
  cases f with
  | arrow params' body' s' =>
    obtain ⟨hvalue, rfl⟩ := parts_of_same h
    obtain ⟨hparams, hbody⟩ : Same (namesToJson params) (namesToJson params') ∧
        Same body.toJson body'.toJson := by simpa using hvalue
    rw [eq_of_same_names hparams, hb _ hbody]
  | _ => exact absurd (type_eq h) (of_decide_eq_false rfl)

theorem determines_assignment {target value : Expr} (op : AssignOp) (s : Span)
    (ht : Determines toJson target) (hv : Determines toJson value) :
    Determines toJson (.assignment target op value s) := by
  intro f h
  cases f with
  | assignment target' op' value' s' =>
    obtain ⟨hparts, rfl⟩ := parts_of_same h
    obtain ⟨htarget, hop, hvalue⟩ : Same target.toJson target'.toJson ∧ op.tag = op'.tag ∧
        Same value.toJson value'.toJson := by simpa using hparts
    rw [ht _ htarget, AssignOp.tag_inj hop, hv _ hvalue]
  | _ => exact absurd (type_eq h) (of_decide_eq_false rfl)

end Expr

/-- The key tells an expression from a block. -/
theorem ArrowBody.determines_expression {value : Expr} (hv : Determines Expr.toJson value) :
    Determines ArrowBody.toJson (.expression value) := by
  intro body h
  cases body with
  | expression value' =>
    have h : Same (.object [("Expression", value.toJson)])
        (.object [("Expression", value'.toJson)]) := h
    have hvalue : Same value.toJson value'.toJson := by simpa using h
    rw [hv _ hvalue]
  | block body =>
    have hmember : Option.Rel Same (some value.toJson) none := h.members "Expression"
    cases hmember

theorem ArrowBody.determines_block {body : List Stmt} (hb : ∀ t ∈ body, Determines Stmt.toJson t) :
    Determines ArrowBody.toJson (.block body) := by
  intro body' h
  cases body' with
  | expression value =>
    have hmember : Option.Rel Same (some (.array (stmtsToJson body))) none := h.members "Block"
    cases hmember
  | block body' =>
    have h : Same (.object [("Block", .array (stmtsToJson body))])
        (.object [("Block", .array (stmtsToJson body'))]) := h
    have hbody : Same (.array (stmtsToJson body)) (.array (stmtsToJson body')) := by simpa using h
    rw [eq_of_same_stmts hb hbody]

/-! ### Statements -/

namespace Stmt

/-- What the document of a statement has as its type. -/
def type : Stmt → String
  | expression _ => "Expression" | declaration _ _ => "VariableDeclaration"
  | function _ _ _ _ => "FunctionDeclaration" | return_ _ => "Return" | if_ _ _ _ => "If"
  | while_ _ _ => "While" | for_ _ _ _ _ => "For" | block _ => "Block" | break_ => "Break"
  | continue_ => "Continue" | import_ _ _ _ => "Import" | export_ _ => "Export" | empty => "Empty"
  | elementStart _ _ _ => "ElementStart" | elementEnd _ _ => "ElementEnd"
  | element _ _ _ => "Element" | decorator _ => "Decorator"

theorem toJson_eq_tagged (s : Stmt) : ∃ ms, s.toJson = .tagged s.type ms := by
  cases s with
  | function name params body decorator => cases decorator <;> exact ⟨_, rfl⟩
  | _ => exact ⟨_, rfl⟩

theorem type_eq {s t : Stmt} (h : Same s.toJson t.toJson) : s.type = t.type := by
  obtain ⟨ms, hms⟩ := s.toJson_eq_tagged
  obtain ⟨ns, hns⟩ := t.toJson_eq_tagged
  rw [hms, hns] at h
  exact h.type_eq

theorem determines_expression {value : Expr} (hv : Determines Expr.toJson value) :
    Determines toJson (.expression value) := by
  intro t h
  cases t with
  | expression value' =>
    have hvalue : Same value.toJson value'.toJson := by
      simpa using h.untagged (by simp) (by simp)
    rw [hv _ hvalue]
  | _ => exact absurd (type_eq h) (of_decide_eq_false rfl)

theorem determines_declaration (kind : VariableKind) {ds : List Declarator}
    (hd : ∀ d ∈ ds, ∀ e ∈ d.init, Determines Expr.toJson e) :
    Determines toJson (.declaration kind ds) := by
  intro t h
  cases t with
  | declaration kind' ds' =>
    obtain ⟨hkind, hds⟩ : kind.keyword.spelling = kind'.keyword.spelling ∧
        Same (.array (declaratorsToJson ds)) (.array (declaratorsToJson ds')) := by
      simpa using h.untagged (by simp) (by simp)
    rw [VariableKind.spelling_inj hkind, eq_of_same_declarators hd hds]
  | _ => exact absurd (type_eq h) (of_decide_eq_false rfl)

/-- A function without a decorator has one member fewer. -/
theorem determines_function (name : String) (params : List String) {body : List Stmt}
    {decorator : Option Decorator} (hb : ∀ t ∈ body, Determines toJson t)
    (hd : ∀ d ∈ decorator, ∀ e ∈ d.arguments, Determines Expr.toJson e) :
    Determines toJson (.function name params body decorator) := by
  intro t h
  cases t with
  | function name' params' body' decorator' =>
    obtain ⟨rfl, hparams, hbody, rfl⟩ : name = name' ∧
        Same (namesToJson params) (namesToJson params') ∧
        Same (.array (stmtsToJson body)) (.array (stmtsToJson body')) ∧
        decorator = decorator' := by
      cases decorator with
      | none =>
        cases decorator' with
        | none => simpa using h.untagged (by simp) (by simp)
        | some d' => exact absurd (h.untagged (by simp) (by simp)) (by simp)
      | some d =>
        cases decorator' with
        | none => exact absurd (h.untagged (by simp) (by simp)) (by simp)
        | some d' =>
          obtain ⟨hname, hparams, hbody, hmembers⟩ : name = name' ∧
              Same (namesToJson params) (namesToJson params') ∧
              Same (.array (stmtsToJson body)) (.array (stmtsToJson body')) ∧
              Same (.object d.members) (.object d'.members) := by
            simpa using h.untagged (by simp) (by simp)
          exact ⟨hname, hparams, hbody, congrArg some (d.determines (hd d rfl) d' hmembers)⟩
    rw [eq_of_same_names hparams, eq_of_same_stmts hb hbody]
  | _ => exact absurd (type_eq h) (of_decide_eq_false rfl)

theorem determines_return {value : Option Expr} (hv : ∀ e ∈ value, Determines Expr.toJson e) :
    Determines toJson (.return_ value) := by
  intro t h
  cases t with
  | return_ value' =>
    have hvalue : Same (exprToJson? value) (exprToJson? value') := by
      simpa using h.untagged (by simp) (by simp)
    rw [eq_of_same_expr? hv hvalue]
  | _ => exact absurd (type_eq h) (of_decide_eq_false rfl)

theorem determines_if {test : Expr} {consequent : Stmt} {alternate : Option Stmt}
    (ht : Determines Expr.toJson test) (hc : Determines toJson consequent)
    (ha : ∀ t ∈ alternate, Determines toJson t) :
    Determines toJson (.if_ test consequent alternate) := by
  intro t h
  cases t with
  | if_ test' consequent' alternate' =>
    obtain ⟨htest, hconsequent, halternate⟩ : Same test.toJson test'.toJson ∧
        Same consequent.toJson consequent'.toJson ∧
        Same (stmtToJson? alternate) (stmtToJson? alternate') := by
      simpa using h.untagged (by simp) (by simp)
    rw [ht _ htest, hc _ hconsequent, eq_of_same_stmt? ha halternate]
  | _ => exact absurd (type_eq h) (of_decide_eq_false rfl)

theorem determines_while {test : Expr} {body : Stmt} (ht : Determines Expr.toJson test)
    (hb : Determines toJson body) : Determines toJson (.while_ test body) := by
  intro t h
  cases t with
  | while_ test' body' =>
    obtain ⟨htest, hbody⟩ : Same test.toJson test'.toJson ∧ Same body.toJson body'.toJson := by
      simpa using h.untagged (by simp) (by simp)
    rw [ht _ htest, hb _ hbody]
  | _ => exact absurd (type_eq h) (of_decide_eq_false rfl)

theorem determines_for {init : Option Stmt} {test update : Option Expr} {body : Stmt}
    (hi : ∀ t ∈ init, Determines toJson t) (ht : ∀ e ∈ test, Determines Expr.toJson e)
    (hu : ∀ e ∈ update, Determines Expr.toJson e) (hb : Determines toJson body) :
    Determines toJson (.for_ init test update body) := by
  intro t h
  cases t with
  | for_ init' test' update' body' =>
    obtain ⟨hinit, htest, hupdate, hbody⟩ : Same (stmtToJson? init) (stmtToJson? init') ∧
        Same (exprToJson? test) (exprToJson? test') ∧
        Same (exprToJson? update) (exprToJson? update') ∧ Same body.toJson body'.toJson := by
      simpa using h.untagged (by simp) (by simp)
    rw [eq_of_same_stmt? hi hinit, eq_of_same_expr? ht htest, eq_of_same_expr? hu hupdate,
      hb _ hbody]
  | _ => exact absurd (type_eq h) (of_decide_eq_false rfl)

theorem determines_block {body : List Stmt} (hb : ∀ t ∈ body, Determines toJson t) :
    Determines toJson (.block body) := by
  intro t h
  cases t with
  | block body' =>
    have hbody : Same (.array (stmtsToJson body)) (.array (stmtsToJson body')) := by
      simpa using h.untagged (by simp) (by simp)
    rw [eq_of_same_stmts hb hbody]
  | _ => exact absurd (type_eq h) (of_decide_eq_false rfl)

theorem determines_import (defaultName : Option String) (specifiers : List ImportSpecifier)
    (source : String) : Determines toJson (.import_ defaultName specifiers source) := by
  intro t h
  cases t with
  | import_ defaultName' specifiers' source' =>
    obtain ⟨hdefault, hspecifiers, rfl⟩ :
        Same (.ofOption .string defaultName) (.ofOption .string defaultName') ∧
        Same (.array (specifiers.map ImportSpecifier.toJson))
          (.array (specifiers'.map ImportSpecifier.toJson)) ∧ source = source' := by
      simpa using h.untagged (by simp) (by simp)
    have hname : defaultName = defaultName' :=
      eq_of_same_ofOption (f := .string) (fun _ => Option.some_ne_none _)
        (fun _ _ _ => same_string.mp) hdefault
    rw [hname, eq_of_same_map (fun s _ => s.determines) hspecifiers]
  | _ => exact absurd (type_eq h) (of_decide_eq_false rfl)

theorem determines_export {declared : Stmt} (hd : Determines toJson declared) :
    Determines toJson (.export_ declared) := by
  intro t h
  cases t with
  | export_ declared' =>
    have hdeclared : Same declared.toJson declared'.toJson := by
      simpa using h.untagged (by simp) (by simp)
    rw [hd _ hdeclared]
  | _ => exact absurd (type_eq h) (of_decide_eq_false rfl)

theorem parts_of_same_tag {name name' : String} {attributes attributes' : List Attribute}
    {s s' : Span}
    (h : Same (.object [("name", .string name), ("attributes", .array (attributesToJson attributes)),
        ("span", s.toJson)])
      (.object [("name", .string name'), ("attributes", .array (attributesToJson attributes')),
        ("span", s'.toJson)]))
    (ha : ∀ x e, .braced x e ∈ attributes → Determines Expr.toJson e) :
    name = name' ∧ attributes = attributes' ∧ s = s' := by
  obtain ⟨hname, hattributes, hspan⟩ : name = name' ∧
      Same (.array (attributesToJson attributes)) (.array (attributesToJson attributes')) ∧
      s = s' := by simpa using h
  exact ⟨hname, eq_of_same_attributes ha hattributes, hspan⟩

theorem determines_elementStart (name : String) {attributes : List Attribute} (s : Span)
    (ha : ∀ x e, .braced x e ∈ attributes → Determines Expr.toJson e) :
    Determines toJson (.elementStart name attributes s) := by
  intro t h
  cases t with
  | elementStart name' attributes' s' =>
    obtain ⟨rfl, rfl, rfl⟩ := parts_of_same_tag (h.untagged (by simp) (by simp)) ha
    rfl
  | _ => exact absurd (type_eq h) (of_decide_eq_false rfl)

theorem determines_elementEnd (name : String) (s : Span) :
    Determines toJson (.elementEnd name s) := by
  intro t h
  cases t with
  | elementEnd name' s' =>
    obtain ⟨rfl, rfl⟩ : name = name' ∧ s = s' := by
      simpa using h.untagged (by simp) (by simp)
    rfl
  | _ => exact absurd (type_eq h) (of_decide_eq_false rfl)

theorem determines_element (name : String) {attributes : List Attribute} (s : Span)
    (ha : ∀ x e, .braced x e ∈ attributes → Determines Expr.toJson e) :
    Determines toJson (.element name attributes s) := by
  intro t h
  cases t with
  | element name' attributes' s' =>
    obtain ⟨rfl, rfl, rfl⟩ := parts_of_same_tag (h.untagged (by simp) (by simp)) ha
    rfl
  | _ => exact absurd (type_eq h) (of_decide_eq_false rfl)

theorem determines_decorator {d : Decorator} (ha : ∀ e ∈ d.arguments, Determines Expr.toJson e) :
    Determines toJson (.decorator d) := by
  intro t h
  cases t with
  | decorator d' =>
    have hmembers := Same.untagged h d.type_notMem d'.type_notMem
    rw [d.determines ha d' hmembers]
  | _ => exact absurd (type_eq h) (of_decide_eq_false rfl)

/-- Break, continue and the empty statement have no parts. -/
theorem determines_break_continue_empty {s : Stmt} (hs : s = .break_ ∨ s = .continue_ ∨ s = .empty) :
    Determines toJson s := by
  intro t h
  have htype := type_eq h
  rcases hs with rfl | rfl | rfl <;> cases t <;>
    first | rfl | exact absurd htype (of_decide_eq_false rfl)

end Stmt

/-! ### Trees -/

/-- Whether an expression is no infinite or missing number. -/
def Expr.isFiniteNumber : Expr → Bool
  | .number value _ => value.isFinite
  | _ => true

/-- Whether all numbers of a program are finite. -/
def Program.hasFiniteNumbers (p : Program) : Bool := p.every Expr.isFiniteNumber fun _ => true

/-- The documents of trees whose numbers are finite determine the trees. -/
theorem determines_toJson : TreeInduction
    (fun e => e.every Expr.isFiniteNumber (fun _ => true) = true → Determines Expr.toJson e)
    (fun s => s.every Expr.isFiniteNumber (fun _ => true) = true → Determines Stmt.toJson s) where
  number _ s hfinite := Expr.determines_number hfinite s
  string value s _ := Expr.determines_string value s
  boolean value s _ := Expr.determines_boolean value s
  null s _ := Expr.determines_null s
  this_ s _ := Expr.determines_this s
  identifier name s _ := Expr.determines_identifier name s
  binary _ op _ s hl hr h := by
    simp only [Expr.every, Bool.and_eq_true] at h
    exact Expr.determines_binary op s (hl h.1.2) (hr h.2)
  unary op _ s ho h := by
    simp only [Expr.every, Bool.and_eq_true] at h
    exact Expr.determines_unary op s (ho h.2)
  update op inFront _ s ho h := by
    simp only [Expr.every, Bool.and_eq_true] at h
    exact Expr.determines_update op inFront s (ho h.2)
  member _ _ computed optional s hb hp h := by
    simp only [Expr.every, Bool.and_eq_true] at h
    exact Expr.determines_member computed optional s (hb h.1.2) (hp h.2)
  call _ _ s hc ha h := by
    simp only [Expr.every, Bool.and_eq_true, everyExpr_iff] at h
    exact Expr.determines_call s (hc h.1.2) fun e he => ha e he (h.2 e he)
  new _ _ s hc ha h := by
    simp only [Expr.every, Bool.and_eq_true, everyExpr_iff] at h
    exact Expr.determines_new s (hc h.1.2) fun e he => ha e he (h.2 e he)
  conditional _ _ _ s ht hc ha h := by
    simp only [Expr.every, Bool.and_eq_true] at h
    exact Expr.determines_conditional s (ht h.1.1.2) (hc h.1.2) (ha h.2)
  object _ s hp h := by
    simp only [Expr.every, Bool.and_eq_true, everyProperty_iff] at h
    exact Expr.determines_object s fun p hm => hp p hm (h.2 p hm)
  array _ s hi h := by
    simp only [Expr.every, Bool.and_eq_true, everyExpr_iff] at h
    exact Expr.determines_array s fun e he => hi e he (h.2 e he)
  arrowExpression params _ s hv h := by
    simp only [Expr.every, ArrowBody.every, Bool.and_eq_true] at h
    exact Expr.determines_arrow params s (ArrowBody.determines_expression (hv h.2))
  arrowBlock params _ s hb h := by
    simp only [Expr.every, ArrowBody.every, Bool.and_eq_true, everyStmt_iff] at h
    exact Expr.determines_arrow params s
      (ArrowBody.determines_block fun t ht => hb t ht (h.2 t ht))
  assignment _ op _ s ht hv h := by
    simp only [Expr.every, Bool.and_eq_true] at h
    exact Expr.determines_assignment op s (ht h.1.2) (hv h.2)
  expression _ hv h := by
    simp only [Stmt.every, Bool.and_eq_true] at h
    exact Stmt.determines_expression (hv h.2)
  declaration kind _ hd h := by
    simp only [Stmt.every, Bool.and_eq_true, everyDeclarator_iff] at h
    exact Stmt.determines_declaration kind fun d hm e he => hd d hm e he (h.2 d hm e he)
  function name params _ _ hb hd h := by
    simp only [Stmt.every, Bool.and_eq_true, everyStmt_iff, everyDecorator?_iff] at h
    exact Stmt.determines_function name params (fun t ht => hb t ht (h.1.2 t ht))
      fun d hm e he => hd d hm e he (h.2 d hm e he)
  return_ _ hv h := by
    simp only [Stmt.every, Bool.and_eq_true, everyExpr?_iff] at h
    exact Stmt.determines_return fun e he => hv e he (h.2 e he)
  if_ _ _ _ ht hc ha h := by
    simp only [Stmt.every, Bool.and_eq_true, everyStmt?_iff] at h
    exact Stmt.determines_if (ht h.1.1.2) (hc h.1.2) fun t ht => ha t ht (h.2 t ht)
  while_ _ _ ht hb h := by
    simp only [Stmt.every, Bool.and_eq_true] at h
    exact Stmt.determines_while (ht h.1.2) (hb h.2)
  for_ _ _ _ _ hi _ _ ht hu hb h := by
    simp only [Stmt.every, Bool.and_eq_true, everyStmt?_iff, everyExpr?_iff] at h
    exact Stmt.determines_for (fun t hm => hi t hm (h.1.1.1.2 t hm))
      (fun e he => ht e he (h.1.1.2 e he)) (fun e he => hu e he (h.1.2 e he)) (hb h.2)
  block _ hb h := by
    simp only [Stmt.every, Bool.and_eq_true, everyStmt_iff] at h
    exact Stmt.determines_block fun t ht => hb t ht (h.2 t ht)
  break_ _ := Stmt.determines_break_continue_empty (.inl rfl)
  continue_ _ := Stmt.determines_break_continue_empty (.inr (.inl rfl))
  import_ defaultName specifiers source _ := Stmt.determines_import defaultName specifiers source
  export_ _ hd h := by
    simp only [Stmt.every, Bool.and_eq_true] at h
    exact Stmt.determines_export (hd h.2)
  empty _ := Stmt.determines_break_continue_empty (.inr (.inr rfl))
  elementStart name _ s ha h := by
    simp only [Stmt.every, Bool.and_eq_true, everyAttribute_iff] at h
    exact Stmt.determines_elementStart name s fun x e hm => ha x e hm (h.2 x e hm)
  elementEnd name s _ := Stmt.determines_elementEnd name s
  element name _ s ha h := by
    simp only [Stmt.every, Bool.and_eq_true, everyAttribute_iff] at h
    exact Stmt.determines_element name s fun x e hm => ha x e hm (h.2 x e hm)
  decorator d ha h := by
    obtain ⟨name, arguments, span⟩ := d
    simp only [Stmt.every, Decorator.every, Bool.and_eq_true, everyExpr_iff] at h
    exact Stmt.determines_decorator fun e he => ha e he (h.2 e he)

/-- **Documents lose nothing.** If the numbers of a program are finite, a program with the same
document is the same program. It makes no difference whether the documents are equal, have the same
text, or only tell a reader the same, who looks up members by their keys. -/
theorem Program.toJson_tfae {p : Program} (hp : p.hasFiniteNumbers = true) (q : Program) :
    [p = q, p.toJson = q.toJson, p.toJson.pretty 0 = q.toJson.pretty 0,
      Same p.toJson q.toJson].TFAE := by
  tfae_have 1 → 2 := congrArg Program.toJson
  tfae_have 2 → 3 := congrArg (Json.pretty 0)
  tfae_have 3 → 4 := same_of_pretty
  tfae_have 4 → 1 := by
    intro h
    obtain ⟨body⟩ := p
    obtain ⟨body'⟩ := q
    have hbody : Same (.array (stmtsToJson body)) (.array (stmtsToJson body')) := by
      simpa [Program.toJson] using h
    have hstmts := everyStmt_iff.mp hp
    exact congrArg Program.mk
      (eq_of_same_stmts (fun s hs => determines_toJson.stmt s (hstmts s hs)) hbody)
  tfae_finish

/-- A tag with a string in braces and a negative zero. -/
def bracedProgram : Program :=
  ⟨[.element "a" [.bare "x", .braced "y" (.string "t" ⟨8, 11, 1, 9⟩),
    .braced "z" (.number (.finite true .zero) ⟨16, 17, 1, 17⟩)] ⟨0, 20, 1, 1⟩]⟩

/-- The same tag with the string as text and a zero. -/
def quotedProgram : Program :=
  ⟨[.element "a" [.bare "x", .text "y" "t",
    .braced "z" (.number (.finite false .zero) ⟨16, 17, 1, 17⟩)] ⟨0, 20, 1, 1⟩]⟩

theorem toJson_bracedProgram : bracedProgram.hasFiniteNumbers = true ∧
    [bracedProgram = quotedProgram, bracedProgram.toJson = quotedProgram.toJson,
      bracedProgram.toJson.pretty 0 = quotedProgram.toJson.pretty 0,
      Same bracedProgram.toJson quotedProgram.toJson].TFAE ∧
    bracedProgram.toJson.pretty 0 ≠ quotedProgram.toJson.pretty 0 := by
  have hfinite : bracedProgram.hasFiniteNumbers = true := by decide
  have htfae := Program.toJson_tfae hfinite quotedProgram
  refine ⟨hfinite, htfae, fun htext => ?_⟩
  have hsame : bracedProgram = quotedProgram := (htfae.out 0 2).mpr htext
  cases hsame

-- What is not finite is written as `null`.
example : (Json.number .nan).pretty 0 = (Json.number (.infinite true)).pretty 0 := rfl

end MarkupScript
