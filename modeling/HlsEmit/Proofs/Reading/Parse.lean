import HlsEmit.Cpp.Parse

/-!
# Syntax is read back from its tokens

The parser inverts `tokens` on grouped syntax: behind the tokens of an expression or a statement it
finds that expression or statement, and leaves the tokens behind it. The number of tokens is enough
for the depth.

## Key results

- `parse_tokens`: expressions, as operands and standing alone
- `parseStmts_tokens`: statements up to a closing brace
- `parseFunction_tokens`: functions
-/

namespace HlsEmit.Cpp

/-- Some tokens do not go on with an operand in front of them, nor with an expression that stands
alone. -/
def Stops (alone : Bool) (ts : List Token) : Prop :=
  ∀ s rest, ts = .symbol s :: rest →
    s ≠ "[" ∧ s ≠ "(" ∧ (alone = true → s ∉ operators ∧ s ≠ "?")

/-- A symbol that does not go on with an expression ends it. -/
theorem stops_symbol {alone : Bool} {s : String} {rest : List Token} (hindex : s ≠ "[")
    (hcall : s ≠ "(") (halone : alone = true → s ∉ operators ∧ s ≠ "?") :
    Stops alone (.symbol s :: rest) := by
  rintro _ _ ⟨⟩
  exact ⟨hindex, hcall, halone⟩

/-- What ends an expression ends an operand. -/
theorem Stops.operand {alone : Bool} {ts : List Token} (h : Stops alone ts) : Stops false ts :=
  fun s rest hs => ⟨(h s rest hs).1, (h s rest hs).2.1, by simp⟩

/-- The token that is expected is taken. -/
@[simp] theorem expect_self (token : Token) (rest : List Token) :
    expect token (token :: rest) = some rest := by
  simp [expect]

/-! ## Expressions -/

/-- Every expression has a token. -/
theorem Expr.tokens_length_pos (e : Expr) : 0 < e.tokens.length := by
  cases e <;> simp only [Expr.tokens, List.length_append, List.length_cons, List.length_nil] <;> omega

/-- Nothing is read behind an expression that stands alone. -/
theorem parseRest_of_stops {depth : Nat} {e : Expr} {rest : List Token} (h : Stops true rest) :
    parseRest depth e rest = some (e, rest) := by
  match depth, rest with
  | 0, _ => simp [parseRest]
  | _ + 1, [] => simp [parseRest]
  | _ + 1, .keyword _ :: _ | _ + 1, .name _ :: _ | _ + 1, .number _ :: _ => simp [parseRest]
  | _ + 1, .symbol s :: ts =>
    obtain ⟨-, -, hstop⟩ := h s ts rfl
    simp [parseRest, hstop rfl]

/-- An expression is what its first operand and what is behind that make. -/
theorem parseExpr_of_operand {depth : Nat} {e : Expr} {ts rest : List Token}
    (h : parseOperand depth ts = some (e, rest)) :
    parseExpr (depth + 1) ts = parseRest depth e rest := by
  rw [parseExpr, h]
  rfl

/-- Behind its first operand, a binary expression goes on with its operator. -/
theorem parseRest_operator {depth : Nat} {operator : String} {lhs rhs : Expr} {ts rest : List Token}
    (hoperator : operator ∈ operators) (h : parseOperand depth ts = some (rhs, rest)) :
    parseRest (depth + 1) lhs (.symbol operator :: ts) = some (.binary operator lhs rhs, rest) := by
  have hmark : operator ≠ "?" := by rintro rfl; exact absurd hoperator (by decide)
  rw [parseRest, if_neg hmark, if_pos hoperator, h]
  rfl

/-- Behind its condition, a conditional goes on with both of its branches. -/
theorem parseRest_conditional {depth : Nat} {condition onTrue onFalse : Expr}
    {ts behind rest : List Token} (hTrue : parseOperand depth ts = some (onTrue, .symbol ":" :: behind))
    (hFalse : parseOperand depth behind = some (onFalse, rest)) :
    parseRest (depth + 1) condition (.symbol "?" :: ts) =
      some (.conditional condition onTrue onFalse, rest) := by
  rw [parseRest, if_pos rfl, hTrue]
  simp [hFalse]

/-- There are no indices in front of a token that ends the operand. -/
theorem parseIndices_of_stops {alone : Bool} {depth : Nat} {rest : List Token}
    (h : Stops alone rest) : parseIndices depth rest = some ([], rest) := by
  match depth, rest with
  | 0, _ => simp [parseIndices]
  | _ + 1, [] => simp [parseIndices]
  | _ + 1, .keyword _ :: _ | _ + 1, .name _ :: _ | _ + 1, .number _ :: _ => simp [parseIndices]
  | _ + 1, .symbol s :: ts =>
    have hindex := (h s ts rfl).1
    simp [parseIndices, hindex]

/-- A name, perhaps with subscripts, is not taken for a call. -/
theorem parseOperand_name {name : String} {depth : Nat} {ts rest : List Token} {indices : List Expr}
    (hcall : ∀ rest, ts ≠ .symbol "(" :: rest)
    (h : parseIndices depth ts = some (indices, rest)) :
    parseOperand (depth + 1) (.name name :: ts) = some (.withIndices name indices, rest) := by
  rw [parseOperand]
  · simp [h]
  · exact hcall

/-- An expression is read back where an operand stands. -/
def Expr.ReadBack (e : Expr) : Prop :=
  ∀ depth rest, e.Grouped false → Stops false rest → e.tokens.length ≤ depth →
    parseOperand depth (e.tokens ++ rest) = some (e, rest)

/-- An expression is read back where it stands alone. -/
def Expr.ReadBackAlone (e : Expr) : Prop :=
  ∀ depth rest, e.Grouped true → Stops true rest → e.tokens.length < depth →
    parseExpr depth (e.tokens ++ rest) = some (e, rest)

/-- What is read as an operand can be read as an expression. -/
theorem Expr.ReadBack.alone {e : Expr} (hgrouped : e.Grouped true → e.Grouped false)
    (h : e.ReadBack) : e.ReadBack ∧ e.ReadBackAlone := by
  refine ⟨h, fun depth rest halone hrest hdepth => ?_⟩
  obtain ⟨depth, rfl⟩ : ∃ d, depth = d + 1 := ⟨depth - 1, by omega⟩
  have hoperand := h depth rest (hgrouped halone) hrest.operand (by omega)
  rw [parseExpr_of_operand hoperand]
  exact parseRest_of_stops hrest

/-- The operators and the mark of a conditional are no subscripts or calls. -/
theorem stops_operator {operator : String} {rest : List Token} (h : operator ∈ operators) :
    Stops false (.symbol operator :: rest) := by
  refine stops_symbol ?_ ?_ (by simp) <;> rintro rfl <;> exact absurd h (by decide)

mutual

/-- An expression is read back: as an operand, and as one that stands alone. -/
theorem parse_tokens : (e : Expr) → e.ReadBack ∧ e.ReadBackAlone
  | .number text => by
    refine Expr.ReadBack.alone id fun depth rest _ _ hdepth => ?_
    obtain ⟨depth, rfl⟩ : ∃ d, depth = d + 1 := ⟨depth - 1, by simp [Expr.tokens] at hdepth; omega⟩
    simp [Expr.tokens, parseOperand]
  | .name name => by
    refine Expr.ReadBack.alone id fun depth rest _ hrest hdepth => ?_
    obtain ⟨depth, rfl⟩ : ∃ d, depth = d + 1 := ⟨depth - 1, by simp [Expr.tokens] at hdepth; omega⟩
    exact parseOperand_name (fun ts hts => (hrest _ _ hts).2.1 rfl) (parseIndices_of_stops hrest)
  | .target pointer => by
    refine Expr.ReadBack.alone id fun depth rest _ _ hdepth => ?_
    obtain ⟨depth, rfl⟩ : ∃ d, depth = d + 1 := ⟨depth - 1, by simp [Expr.tokens] at hdepth; omega⟩
    simp [Expr.tokens, parseOperand]
  | .element array indices => by
    refine Expr.ReadBack.alone id fun depth rest hgrouped hrest hdepth => ?_
    simp only [Expr.tokens, List.length_cons] at hdepth
    obtain ⟨depth, rfl⟩ : ∃ d, depth = d + 1 := ⟨depth - 1, by omega⟩
    have hindices := parseIndices_tokens indices depth rest hgrouped.2 hrest (by omega)
    obtain ⟨index, others, rfl⟩ := List.exists_cons_of_ne_nil hgrouped.1
    refine parseOperand_name ?_ hindices
    simp [indexTokens]
  | .negate operand => by
    refine Expr.ReadBack.alone id fun depth rest hgrouped hrest hdepth => ?_
    simp only [Expr.tokens, List.length_cons] at hdepth
    obtain ⟨depth, rfl⟩ : ∃ d, depth = d + 1 := ⟨depth - 1, by omega⟩
    have hoperand := (parse_tokens operand).1 depth rest hgrouped hrest (by omega)
    simp [Expr.tokens, parseOperand, hoperand]
  | .paren inner => by
    refine Expr.ReadBack.alone id fun depth rest hgrouped hrest hdepth => ?_
    simp only [Expr.tokens, List.length_cons, List.length_append, List.length_nil] at hdepth
    obtain ⟨depth, rfl⟩ : ∃ d, depth = d + 1 := ⟨depth - 1, by omega⟩
    have hinner := (parse_tokens inner).2 depth (.symbol ")" :: rest) hgrouped
      (stops_symbol (by decide) (by decide) (by decide)) (by omega)
    simp [Expr.tokens, parseOperand, hinner]
  | .binary operator lhs rhs => by
    refine ⟨fun _ _ hgrouped => absurd hgrouped.1 (by simp), fun depth rest hgrouped hrest hdepth => ?_⟩
    -- Both sides are operands: the operator ends the first, and what ends the whole the second.
    obtain ⟨-, hoperator, hlhs, hrhs⟩ := hgrouped
    simp only [Expr.tokens, List.length_append, List.length_cons] at hdepth
    have hpos := lhs.tokens_length_pos
    obtain ⟨depth, rfl⟩ : ∃ d, depth = d + 2 := ⟨depth - 2, by omega⟩
    have hfirst := (parse_tokens lhs).1 (depth + 1) (.symbol operator :: (rhs.tokens ++ rest)) hlhs
      (stops_operator hoperator) (by omega)
    have hsecond := (parse_tokens rhs).1 depth rest hrhs hrest.operand (by omega)
    rw [Expr.tokens, List.append_assoc, List.cons_append, parseExpr_of_operand hfirst]
    exact parseRest_operator hoperator hsecond
  | .conditional condition onTrue onFalse => by
    refine ⟨fun _ _ hgrouped => absurd hgrouped.1 (by simp), fun depth rest hgrouped hrest hdepth => ?_⟩
    -- The question mark ends the condition, the colon the first branch.
    obtain ⟨-, hcondition, hTrue, hFalse⟩ := hgrouped
    simp only [Expr.tokens, List.length_append, List.length_cons] at hdepth
    have hpos := condition.tokens_length_pos
    obtain ⟨depth, rfl⟩ : ∃ d, depth = d + 2 := ⟨depth - 2, by omega⟩
    have hfirst := (parse_tokens condition).1 (depth + 1)
      (.symbol "?" :: (onTrue.tokens ++ .symbol ":" :: (onFalse.tokens ++ rest))) hcondition
      (stops_symbol (by decide) (by decide) (by decide)) (by omega)
    have hsecond := (parse_tokens onTrue).1 depth (.symbol ":" :: (onFalse.tokens ++ rest)) hTrue
      (stops_symbol (by decide) (by decide) (by decide)) (by omega)
    have hthird := (parse_tokens onFalse).1 depth rest hFalse hrest.operand (by omega)
    rw [Expr.tokens, List.append_assoc, List.cons_append, List.append_assoc, List.cons_append,
      parseExpr_of_operand hfirst]
    exact parseRest_conditional hsecond hthird
  | .call function args => by
    refine Expr.ReadBack.alone id fun depth rest hgrouped _ hdepth => ?_
    simp only [Expr.tokens, List.length_cons] at hdepth
    obtain ⟨depth, rfl⟩ : ∃ d, depth = d + 1 := ⟨depth - 1, by omega⟩
    have hargs := parseArgs_tokens args depth rest hgrouped.1 hgrouped.2 (by omega)
    simp [Expr.tokens, parseOperand, hargs]
termination_by structural e => e

/-- Subscripts are read back. -/
theorem parseIndices_tokens : (indices : List Expr) → ∀ depth rest, AllGrouped indices →
    Stops false rest → (indexTokens indices).length ≤ depth →
    parseIndices depth (indexTokens indices ++ rest) = some (indices, rest)
  | [], _, _, _, hrest, _ => parseIndices_of_stops hrest
  | index :: others, depth, rest, hgrouped, hrest, hdepth => by
    simp only [indexTokens, List.length_cons, List.length_append] at hdepth
    obtain ⟨depth, rfl⟩ : ∃ d, depth = d + 1 := ⟨depth - 1, by omega⟩
    have hindex := (parse_tokens index).2 depth (.symbol "]" :: (indexTokens others ++ rest))
      hgrouped.1 (stops_symbol (by decide) (by decide) (by decide)) (by omega)
    have hothers := parseIndices_tokens others depth rest hgrouped.2 hrest (by omega)
    simp [indexTokens, parseIndices, hindex, hothers]
termination_by structural indices => indices

/-- Arguments are read back. -/
theorem parseArgs_tokens : (args : List Expr) → ∀ depth rest, args ≠ [] → AllGrouped args →
    (argTokens args).length < depth → parseArgs depth (argTokens args ++ rest) = some (args, rest)
  | [], _, _, hargs, _, _ => absurd rfl hargs
  | [arg], depth, rest, _, hgrouped, hdepth => by
    simp only [argTokens, List.length_append] at hdepth
    obtain ⟨depth, rfl⟩ : ∃ d, depth = d + 1 := ⟨depth - 1, by omega⟩
    have harg := (parse_tokens arg).2 depth (.symbol ")" :: rest) hgrouped.1
      (stops_symbol (by decide) (by decide) (by decide)) (by simp at hdepth; omega)
    simp [argTokens, parseArgs, harg]
  | arg :: next :: others, depth, rest, _, hgrouped, hdepth => by
    simp only [argTokens, List.length_append, List.length_cons] at hdepth
    obtain ⟨depth, rfl⟩ : ∃ d, depth = d + 1 := ⟨depth - 1, by omega⟩
    have harg := (parse_tokens arg).2 depth
      (.symbol "," :: (argTokens (next :: others) ++ rest)) hgrouped.1
      (stops_symbol (by decide) (by decide) (by decide)) (by omega)
    have hothers := parseArgs_tokens (next :: others) depth rest (by simp) hgrouped.2 (by omega)
    simp [argTokens, parseArgs, harg, hothers]
termination_by structural args => args

end

/-- A grouped expression that stands alone is read back. -/
theorem parseExpr_tokens (depth : Nat) (rest : List Token) {e : Expr} (hgrouped : e.Grouped true)
    (hrest : Stops true rest) (hdepth : e.tokens.length < depth) :
    parseExpr depth (e.tokens ++ rest) = some (e, rest) :=
  (parse_tokens e).2 depth rest hgrouped hrest hdepth

/-- A grouped operand is read back. -/
theorem parseOperand_tokens (depth : Nat) (rest : List Token) {e : Expr} (hgrouped : e.Grouped false)
    (hrest : Stops false rest) (hdepth : e.tokens.length ≤ depth) :
    parseOperand depth (e.tokens ++ rest) = some (e, rest) :=
  (parse_tokens e).1 depth rest hgrouped hrest hdepth

/-! ## Declarations -/

/-- A type is read back. -/
theorem parseType_tokens {type : TypeName} (h : type.IsProper) (rest : List Token) :
    parseType (type.tokens ++ rest) = some (type, rest) := by
  obtain ⟨base, width⟩ := type
  cases width with
  | none =>
    have hbase : base ∈ arithmeticTypes := h
    simp [TypeName.tokens, parseType, hbase]
  | some width => simp [TypeName.tokens, parseType]

/-- Behind the extents of an array comes no further one. -/
theorem parseExtents_tokens (extents : List String) (rest : List Token)
    (hrest : ∀ ts, rest ≠ .symbol "[" :: ts) :
    parseExtents (extentTokens extents ++ rest) = (extents, rest) := by
  induction extents with
  | nil =>
    rw [extentTokens, List.flatMap_nil, List.nil_append, parseExtents]
    exact fun extent ts hts => hrest _ hts
  | cons extent extents ih =>
    have hshape : extentTokens (extent :: extents) ++ rest =
        .symbol "[" :: .number extent :: .symbol "]" :: (extentTokens extents ++ rest) := by
      simp [extentTokens]
    rw [hshape, parseExtents, ih]

/-- A parameter of a type that can be read. -/
def Param.IsProper (param : Param) : Prop :=
  param.type.IsProper

/-- A parameter is read back. -/
theorem parseParam_tokens (rest : List Token) {param : Param} (h : param.IsProper)
    (hrest : ∀ ts, rest ≠ .symbol "[" :: ts) :
    parseParam (param.tokens ++ rest) = some (param, rest) := by
  obtain ⟨type, name, pointer, extents⟩ := param
  have htype := parseType_tokens (h : type.IsProper)
  have hextents := parseExtents_tokens extents rest hrest
  cases pointer <;> simp [Param.tokens, parseParam, htype, hextents]

/-- Parameters are read back, one at least. -/
theorem parseSomeParams_tokens (depth : Nat) (rest : List Token) {params : List Param}
    (hparams : params ≠ []) (h : ∀ param ∈ params, param.IsProper) (hdepth : params.length ≤ depth) :
    parseSomeParams depth (paramTokens params ++ rest) = some (params, rest) := by
  induction params generalizing depth with
  | nil => exact absurd rfl hparams
  | cons param others ih =>
    rw [List.forall_mem_cons] at h
    obtain ⟨depth, rfl⟩ : ∃ d, depth = d + 1 := ⟨depth - 1, by simp at hdepth; omega⟩
    cases others with
    | nil =>
      have hparam := parseParam_tokens (.symbol ")" :: rest) h.1 (by simp)
      simp [paramTokens, parseSomeParams, hparam]
    | cons next others =>
      have hparam := parseParam_tokens
        (.symbol "," :: (paramTokens (next :: others) ++ rest)) h.1 (by simp)
      have hothers := ih depth (by simp) h.2 (by simp at hdepth ⊢; omega)
      simp [paramTokens, parseSomeParams, hparam, hothers]

/-- Parameters are read back. -/
theorem parseParams_tokens (depth : Nat) (rest : List Token) {params : List Param}
    (h : ∀ param ∈ params, param.IsProper) (hdepth : params.length ≤ depth) :
    parseParams depth (paramTokens params ++ rest) = some (params, rest) := by
  cases params with
  | nil => simp [paramTokens, parseParams]
  | cons param others =>
    have hsome := parseSomeParams_tokens depth rest (List.cons_ne_nil param others) h hdepth
    -- no type starts with a parenthesis
    obtain ⟨first, ts, hfirst, hne⟩ : ∃ first ts,
        paramTokens (param :: others) ++ rest = first :: ts ∧ first ≠ .symbol ")" := by
      obtain ⟨⟨base, width⟩, name, pointer, extents⟩ := param
      cases others <;> cases width <;> simp [paramTokens, Param.tokens, TypeName.tokens]
    rw [hfirst] at hsome ⊢
    rw [parseParams, hsome]
    rintro _ ⟨⟩
    exact hne rfl

/-! ## Statements -/

/-- An operand starts with no reserved word and with few symbols. -/
theorem Expr.exists_first_token {e : Expr} (h : e.Grouped false) :
    ∃ first others, e.tokens = first :: others ∧ (∀ text, first ≠ .keyword text) ∧
      ∀ s, first = .symbol s → s ∈ ["*", "-", "("] := by
  cases e with
  | binary operator lhs rhs => exact absurd h.1 (by simp)
  | conditional condition onTrue onFalse => exact absurd h.1 (by simp)
  | _ => simp [Expr.tokens]

/-- An operand is not taken for a type. -/
theorem parseType_operand {e : Expr} (h : e.Grouped false) {s : String} (hs : s ≠ "<")
    (rest : List Token) : parseType (e.tokens ++ .symbol s :: rest) = none := by
  cases e with
  | binary operator lhs rhs => exact absurd h.1 (by simp)
  | conditional condition onTrue onFalse => exact absurd h.1 (by simp)
  | name name => simp [Expr.tokens, parseType, hs]
  | element array indices =>
    obtain ⟨index, others, rfl⟩ := List.exists_cons_of_ne_nil h.1
    simp [Expr.tokens, indexTokens, parseType]
  | _ => simp [Expr.tokens, parseType]

/-- The step of a loop is read back. -/
theorem parseAdvance_tokens {advance : Advance} (h : advance.Grouped) {depth : Nat}
    (hdepth : advance.tokens.length < depth) (rest : List Token) :
    parseAdvance depth (advance.tokens ++ .symbol ")" :: rest) =
      some (advance, .symbol ")" :: rest) := by
  have hstops {alone : Bool} : Stops alone (.symbol ")" :: rest) :=
    stops_symbol (by decide) (by decide) fun _ => ⟨by decide, by decide⟩
  cases advance with
  | increment target =>
    simp only [Advance.tokens, List.length_cons] at hdepth
    have htarget := parseOperand_tokens depth _ h hstops (by omega)
    simp [Advance.tokens, parseAdvance, htarget]
  | add target step =>
    simp only [Advance.tokens, List.length_append, List.length_cons] at hdepth
    have htarget := parseOperand_tokens depth
      (.symbol "+=" :: (step.tokens ++ .symbol ")" :: rest)) h.1
      (stops_symbol (by decide) (by decide) (by simp)) (by omega)
    have hstep := parseExpr_tokens depth _ h.2 hstops (by omega)
    obtain ⟨first, others, hfirst, -, hsymbol⟩ := Expr.exists_first_token h.1
    rw [Advance.tokens, List.append_assoc, List.cons_append, parseAdvance]
    · simp [htarget, hstep]
    · -- no operand starts with an increment
      rintro ts hts
      rw [hfirst, List.cons_append] at hts
      cases hts
      exact absurd (hsymbol _ rfl) (by decide)

/-- The head of a loop is read back. -/
theorem parseHead_tokens (depth : Nat) (head : LoopHead) (htype : head.type.IsProper)
    (hfirst : head.first.Grouped true) (htest : head.test.Grouped true)
    (hadvance : head.advance.Grouped) (hfirstDepth : head.first.tokens.length < depth)
    (htestDepth : head.test.tokens.length < depth)
    (hadvanceDepth : head.advance.tokens.length < depth) (rest : List Token) :
    parseHead depth (head.type.tokens ++ .name head.index :: .symbol "=" ::
      (head.first.tokens ++ .symbol ";" :: (head.test.tokens ++ .symbol ";" ::
        (head.advance.tokens ++ .symbol ")" :: rest)))) = some (head, .symbol ")" :: rest) := by
  have hstops (ts : List Token) : Stops true (.symbol ";" :: ts) :=
    stops_symbol (by decide) (by decide) (by decide)
  have hfirst' := fun ts => parseExpr_tokens depth _ hfirst (hstops ts) hfirstDepth
  have htest' := fun ts => parseExpr_tokens depth _ htest (hstops ts) htestDepth
  have hadvance' := parseAdvance_tokens hadvance hadvanceDepth rest
  simp [parseHead, parseType_tokens htype, hfirst', htest', hadvance']

/-- A statement that starts with a type is a declaration. -/
theorem parseStmt_type {depth : Nat} {type : TypeName} (h : type.IsProper) (ts : List Token) :
    parseStmt (depth + 1) (type.tokens ++ ts) = parseDeclaration depth type ts := by
  have htype := parseType_tokens h ts
  obtain ⟨base, width⟩ := type
  cases width with
  | none =>
    have hbase : base ∈ arithmeticTypes := h
    -- No type is a keyword that opens a statement.
    have hfor : base ≠ "for" := by rintro rfl; exact absurd hbase (by decide)
    have hif : base ≠ "if" := by rintro rfl; exact absurd hbase (by decide)
    simp only [TypeName.tokens, List.cons_append, List.nil_append] at htype ⊢
    rw [parseStmt, htype]
    · simp [hfor]
    · simp [hif]
  | some width =>
    simp only [TypeName.tokens, List.cons_append, List.nil_append] at htype ⊢
    rw [parseStmt, htype]
    · simp
    · simp

/-- A statement that starts with an operand is an assignment. -/
theorem parseStmt_operand {depth : Nat} {target : Expr} (h : target.Grouped false)
    (ts : List Token) :
    parseStmt (depth + 1) (target.tokens ++ .symbol "=" :: ts) =
      parseAssignment depth (target.tokens ++ .symbol "=" :: ts) := by
  have htype := parseType_operand h (s := "=") (by decide) ts
  obtain ⟨first, others, hfirst, hkeyword, -⟩ := Expr.exists_first_token h
  rw [hfirst, List.cons_append] at htype ⊢
  rw [parseStmt, htype]
  · intro ts' hts
    exact hkeyword _ (List.cons.inj hts).1
  · intro ts' hts
    exact hkeyword _ (List.cons.inj hts).1

/-- A definition is read back. -/
theorem parseDeclaration_define (depth : Nat) (type : TypeName) (name : String) {value : Expr}
    (hvalue : value.Grouped true) (hdepth : value.tokens.length < depth)
    (rest : List Token) :
    parseDeclaration depth type (.name name :: .symbol "=" :: (value.tokens ++ .symbol ";" :: rest)) =
      some (.define type name value, rest) := by
  have hparsed := parseExpr_tokens depth (.symbol ";" :: rest) hvalue
    (stops_symbol (by decide) (by decide) (by decide)) hdepth
  simp [parseDeclaration, hparsed]

/-- A declaration is read back. -/
theorem parseDeclaration_declare (depth : Nat) (type : TypeName) (name : String)
    (extents : List String) (rest : List Token) :
    parseDeclaration depth type (.name name :: (extentTokens extents ++ .symbol ";" :: rest)) =
      some (.declare type name extents, rest) := by
  have hextents := parseExtents_tokens extents (.symbol ";" :: rest) (by simp)
  rw [parseDeclaration]
  · simp [hextents]
  · cases extents <;> simp [extentTokens]

/-- An assignment is read back. -/
theorem parseAssignment_tokens (depth : Nat) {target value : Expr} (htarget : target.Grouped false)
    (hvalue : value.Grouped true) (htargetDepth : target.tokens.length ≤ depth)
    (hvalueDepth : value.tokens.length < depth) (rest : List Token) :
    parseAssignment depth (target.tokens ++ .symbol "=" :: (value.tokens ++ .symbol ";" :: rest)) =
      some (.assign target value, rest) := by
  have htarget' := parseOperand_tokens depth
    (.symbol "=" :: (value.tokens ++ .symbol ";" :: rest)) htarget
    (stops_symbol (by decide) (by decide) (by simp)) htargetDepth
  have hvalue' := parseExpr_tokens depth (.symbol ";" :: rest) hvalue
    (stops_symbol (by decide) (by decide) (by decide)) hvalueDepth
  simp [parseAssignment, htarget', hvalue']

/-- A grouped statement starts neither with a closing brace nor with a second branch. -/
theorem Stmt.exists_first_token {stmt : Stmt} (h : stmt.Grouped) :
    ∃ first others, stmt.tokens = first :: others ∧ first ≠ .symbol "\x7d" ∧
      first ≠ .keyword "else" := by
  -- Declarations start with their types.
  have htype {type : TypeName} (h : type.IsProper) (ts : List Token) :
      ∃ first others, type.tokens ++ ts = first :: others ∧ first ≠ .symbol "\x7d" ∧
        first ≠ .keyword "else" := by
    obtain ⟨base, width⟩ := type
    cases width with
    | none =>
      have hbase : base ∈ arithmeticTypes := h
      have helse : base ≠ "else" := by rintro rfl; exact absurd hbase (by decide)
      simp [TypeName.tokens, helse]
    | some width => simp [TypeName.tokens]
  cases stmt with
  | declare type name extents => exact htype h _
  | define type name value => exact htype h.1 _
  | assign target value =>
    obtain ⟨first, others, hfirst, hkeyword, hsymbol⟩ := Expr.exists_first_token h.1
    refine ⟨first, _, by rw [Stmt.tokens, hfirst, List.cons_append], ?_, hkeyword _⟩
    rintro rfl
    exact absurd (hsymbol _ rfl) (by decide)
  | loop type index first test advance body => simp [Stmt.tokens]
  | branch condition onTrue onFalse => cases onFalse <;> simp [Stmt.tokens]

/-- What is behind a conditional is not taken for its second branch. -/
def NoElse (ts : List Token) : Prop :=
  ∀ rest, ts ≠ .keyword "else" :: rest

/-- A block is read back if its statements are. -/
theorem parseBlock_of_stmts {stmts : List Stmt} {depth : Nat} {rest : List Token}
    (h : parseStmts depth (stmtsTokens stmts ++ .symbol "\x7d" :: rest) =
      some (stmts, .symbol "\x7d" :: rest)) :
    parseBlock (depth + 1) (.symbol "\x7b" :: (stmtsTokens stmts ++ .symbol "\x7d" :: rest)) =
      some (stmts, rest) := by
  rw [parseBlock, h]
  simp

mutual

/-- A statement is read back. -/
theorem parseStmt_tokens : (stmt : Stmt) → ∀ depth rest, stmt.Grouped → NoElse rest →
    stmt.tokens.length ≤ depth → parseStmt depth (stmt.tokens ++ rest) = some (stmt, rest)
  | .declare type name extents, depth, rest, hgrouped, _, hdepth => by
    simp only [Stmt.tokens, List.length_append, List.length_cons] at hdepth
    obtain ⟨depth, rfl⟩ : ∃ d, depth = d + 1 := ⟨depth - 1, by omega⟩
    have hparsed := parseDeclaration_declare depth type name extents rest
    rw [← parseStmt_type hgrouped] at hparsed
    simpa [Stmt.tokens] using hparsed
  | .define type name value, depth, rest, hgrouped, _, hdepth => by
    simp only [Stmt.tokens, List.length_append, List.length_cons] at hdepth
    obtain ⟨depth, rfl⟩ : ∃ d, depth = d + 1 := ⟨depth - 1, by omega⟩
    have hparsed := parseDeclaration_define depth type name hgrouped.2 (by omega) rest
    rw [← parseStmt_type hgrouped.1] at hparsed
    simpa [Stmt.tokens] using hparsed
  | .assign target value, depth, rest, hgrouped, _, hdepth => by
    simp only [Stmt.tokens, List.length_append, List.length_cons] at hdepth
    obtain ⟨depth, rfl⟩ : ∃ d, depth = d + 1 := ⟨depth - 1, by omega⟩
    have hpos := target.tokens_length_pos
    have hparsed := parseAssignment_tokens depth hgrouped.1 hgrouped.2 (by omega) (by omega) rest
    rw [← parseStmt_operand hgrouped.1] at hparsed
    simpa [Stmt.tokens] using hparsed
  | .loop type index first test advance body, depth, rest, hgrouped, _, hdepth => by
    obtain ⟨htype, hfirst, htest, hadvance, hbody⟩ := hgrouped
    simp only [Stmt.tokens, List.length_append, List.length_cons, List.length_nil] at hdepth
    obtain ⟨depth, rfl⟩ : ∃ d, depth = d + 2 := ⟨depth - 2, by omega⟩
    -- The head ends at the brace, and the body between the braces is read by itself.
    have hhead := parseHead_tokens (depth + 1) ⟨type, index, first, test, advance⟩ htype hfirst htest
      hadvance (by simp only; omega) (by simp only; omega)
      (by simp only; omega) (.symbol "\x7b" :: (stmtsTokens body ++ .symbol "\x7d" :: rest))
    have hblock := parseBlock_of_stmts (parseStmts_tokens body depth rest hbody (by omega))
    simp only [Stmt.tokens, List.cons_append, List.append_assoc, List.nil_append]
    rw [parseStmt]
    simp only at hhead
    simp [hhead, hblock]
  | .branch condition onTrue none, depth, rest, hgrouped, hrest, hdepth => by
    simp only [Stmt.tokens, List.length_append, List.length_cons, List.length_nil] at hdepth
    obtain ⟨depth, rfl⟩ : ∃ d, depth = d + 2 := ⟨depth - 2, by omega⟩
    have hcondition := parseExpr_tokens (depth + 1)
      (.symbol ")" :: .symbol "\x7b" :: (stmtsTokens onTrue ++ .symbol "\x7d" :: rest)) hgrouped.1
      (stops_symbol (by decide) (by decide) (by decide)) (by omega)
    have hblock := parseBlock_of_stmts (parseStmts_tokens onTrue depth rest hgrouped.2 (by omega))
    simp only [Stmt.tokens, List.cons_append, List.append_assoc, List.nil_append]
    rw [parseStmt]
    simp only [hcondition, hblock, expect_self, Option.bind_eq_bind, Option.bind_some]
    -- There is no second branch behind the statement.
    split
    · exact absurd rfl (hrest _)
    · rfl
  | .branch condition onTrue (some onFalse), depth, rest, hgrouped, _, hdepth => by
    obtain ⟨hconditionGrouped, hTrue, hFalse⟩ := hgrouped
    simp only [Stmt.tokens, List.length_append, List.length_cons, List.length_nil] at hdepth
    obtain ⟨depth, rfl⟩ : ∃ d, depth = d + 2 := ⟨depth - 2, by omega⟩
    have hcondition := parseExpr_tokens (depth + 1)
      (.symbol ")" :: .symbol "\x7b" :: (stmtsTokens onTrue ++ .symbol "\x7d" ::
        .keyword "else" :: .symbol "\x7b" :: (stmtsTokens onFalse ++ .symbol "\x7d" :: rest)))
      hconditionGrouped
      (stops_symbol (by decide) (by decide) (by decide)) (by omega)
    have hfirst := parseBlock_of_stmts (parseStmts_tokens onTrue depth
      (.keyword "else" :: .symbol "\x7b" :: (stmtsTokens onFalse ++ .symbol "\x7d" :: rest)) hTrue
      (by omega))
    have hsecond := parseBlock_of_stmts (parseStmts_tokens onFalse depth rest hFalse (by omega))
    simp only [Stmt.tokens, List.cons_append, List.append_assoc, List.nil_append]
    rw [parseStmt]
    simp [hcondition, hfirst, hsecond]
termination_by structural stmt => stmt

/-- Statements are read back up to the brace behind them. -/
theorem parseStmts_tokens : (stmts : List Stmt) → ∀ depth rest, AllStmtsGrouped stmts →
    (stmtsTokens stmts).length < depth →
    parseStmts depth (stmtsTokens stmts ++ .symbol "\x7d" :: rest) =
      some (stmts, .symbol "\x7d" :: rest)
  | [], depth, rest, _, hdepth => by
    obtain ⟨depth, rfl⟩ : ∃ d, depth = d + 1 := ⟨depth - 1, by omega⟩
    simp [stmtsTokens, parseStmts]
  | stmt :: others, depth, rest, hgrouped, hdepth => by
    simp only [stmtsTokens, List.length_append] at hdepth
    obtain ⟨depth, rfl⟩ : ∃ d, depth = d + 1 := ⟨depth - 1, by omega⟩
    -- What stands behind a statement is another one or the brace, never a second branch of it.
    have hnoElse : NoElse (stmtsTokens others ++ .symbol "\x7d" :: rest) := by
      cases others with
      | nil => simp [NoElse, stmtsTokens]
      | cons next others =>
        obtain ⟨first, ts, hfirst, -, helse⟩ := Stmt.exists_first_token hgrouped.2.1
        simp [NoElse, stmtsTokens, hfirst, helse]
    have hstmt := parseStmt_tokens stmt depth (stmtsTokens others ++ .symbol "\x7d" :: rest)
      hgrouped.1 hnoElse (by omega)
    obtain ⟨first, ts, hfirst, hbrace, -⟩ := Stmt.exists_first_token hgrouped.1
    have hpos : 0 < stmt.tokens.length := by simp [hfirst]
    have hothers := parseStmts_tokens others depth rest hgrouped.2 (by omega)
    rw [stmtsTokens, List.append_assoc, parseStmts]
    · simp [hstmt, hothers]
    · rintro ts' hts
      rw [hfirst, List.cons_append] at hts
      exact hbrace (List.cons.inj hts).1
termination_by structural stmts => stmts

end

/-! ## Functions -/

/-- A function of grouped statements, with parameters of types that can be read. -/
structure Function.Grouped (function : Function) : Prop where
  params : ∀ param ∈ function.params, param.IsProper
  body : AllStmtsGrouped function.body

/-- There is a token for each parameter. -/
theorem paramTokens_length (params : List Param) : params.length ≤ (paramTokens params).length := by
  induction params with
  | nil => simp
  | cons param others ih =>
    have hpos : 0 < param.tokens.length :=
      List.length_pos_of_mem (show Token.name param.name ∈ param.tokens by simp [Param.tokens])
    cases others with
    | nil => simp [paramTokens]
    | cons next others =>
      simp only [paramTokens, List.length_append, List.length_cons] at ih ⊢
      omega

/-- A grouped function is read back. -/
theorem parseFunction_tokens {function : Function} (h : function.Grouped) {depth : Nat}
    (hdepth : function.tokens.length ≤ depth) (rest : List Token) :
    parseFunction depth (function.tokens ++ rest) = some (function, rest) := by
  obtain ⟨name, params, body⟩ := function
  simp only [Function.tokens, List.length_append, List.length_cons, List.length_nil] at hdepth
  have hcount := paramTokens_length params
  obtain ⟨depth, rfl⟩ : ∃ d, depth = d + 1 := ⟨depth - 1, by omega⟩
  have hparams := parseParams_tokens (depth + 1)
    (.symbol "\x7b" :: (stmtsTokens body ++ .symbol "\x7d" :: rest)) h.params (by simp only; omega)
  have hbody := parseBlock_of_stmts (parseStmts_tokens body depth rest h.body (by omega))
  simp only at hparams
  simp [Function.tokens, parseFunction, hparams, hbody]

/-- A function is read from each text that has its tokens. -/
theorem readFunction_of_tokens {function : Function} (h : function.Grouped) {text : String}
    (htext : tokenize text = some function.tokens) : readFunction text = some function := by
  have hparsed := parseFunction_tokens h (Nat.le_succ _) []
  rw [List.append_nil] at hparsed
  simp [readFunction, htext, hparsed]

/-- An expression is read from each text that has its tokens. -/
theorem readExpr_of_tokens {e : Expr} (h : e.Grouped true) {text : String}
    (htext : tokenize text = some e.tokens) : readExpr text = some e := by
  have hparsed := parseExpr_tokens _ [] h (by simp [Stops]) (Nat.lt_succ_self _)
  rw [List.append_nil] at hparsed
  simp [readExpr, htext, hparsed]

end HlsEmit.Cpp
