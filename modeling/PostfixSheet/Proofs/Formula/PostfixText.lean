import PostfixSheet.Proofs.Formula.SameTrees

/-! Postfix text and trees. The text of a tree parses to that tree again exactly when some text does, and
that depends on the names in the tree alone. -/

namespace PostfixSheet

/-- A tree that has a text: its names stand for themselves, and its functions can be called by name. -/
structure Formula.Expressible (functions : Registry) (formula : Formula) : Prop where
  names : ∀ name ∈ formula.references, PlainName name
  calls : ∀ name ∈ formula.functionNames, Unbroken name ∧ functions.contains name = true

theorem formulaTokens_postfixText (functions : Registry) (formula : Formula)
    (expressible : formula.Expressible functions) :
    formulaTokens formula.postfixText = formula.tokens := by
  obtain ⟨names, calls⟩ := expressible
  induction formula with
  | constant value => exact formulaTokens_constant value
  | reference name => exact formulaTokens_name name (names name (by simp [Formula.references]))
  | operation operator left right ihLeft ihRight =>
      have leftTokens := ihLeft (fun name member => names name (by simp [Formula.references, member]))
        fun name member => calls name (by simp [Formula.functionNames, member])
      have rightTokens := ihRight (fun name member => names name (by simp [Formula.references, member]))
        fun name member => calls name (by simp [Formula.functionNames, member])
      simp only [Formula.postfixText, Formula.tokens]
      rw [formulaTokens_append, formulaTokens_append, leftTokens, rightTokens, formulaTokens_symbol]
  | application function argument ih =>
      have argumentTokens := ih (fun name member => names name (by simpa [Formula.references] using member))
        fun name member => calls name (by simp [Formula.functionNames, member])
      have unbroken := (calls function.name (by simp [Formula.functionNames])).1
      simp only [Formula.postfixText, Formula.tokens]
      rw [String.append_assoc, formulaTokens_append, argumentTokens, formulaTokens_call _ unbroken]

theorem contains_eq_isSome (functions : Registry) (name : String) :
    functions.contains name = (functions.get? name).isSome :=
  Std.ExtTreeMap.contains_eq_isSome_getElem?

theorem exists_resolved (functions : Registry) (formula : Formula)
    (registered : ∀ name ∈ formula.functionNames, functions.contains name = true) :
    ∃ resolved : Formula, resolved.ResolvedBy functions ∧ resolved.tokens = formula.tokens ∧
      resolved.same formula = true := by
  induction formula with
  | constant value => exact ⟨.constant value, trivial, rfl, by simp [Formula.same]⟩
  | reference name => exact ⟨.reference name, trivial, rfl, by simp [Formula.same]⟩
  | operation operator left right ihLeft ihRight =>
      obtain ⟨first, firstResolved, firstTokens, firstSame⟩ :=
        ihLeft fun name member => registered name (by simp [Formula.functionNames, member])
      obtain ⟨second, secondResolved, secondTokens, secondSame⟩ :=
        ihRight fun name member => registered name (by simp [Formula.functionNames, member])
      refine ⟨.operation operator first second, ⟨firstResolved, secondResolved⟩, ?_, ?_⟩
      · simp [Formula.tokens, firstTokens, secondTokens]
      · simp [Formula.same, firstSame, secondSame]
  | application function argument ih =>
      obtain ⟨inner, innerResolved, innerTokens, innerSame⟩ :=
        ih fun name member => registered name (by simp [Formula.functionNames, member])
      have known := registered function.name (by simp [Formula.functionNames])
      rw [contains_eq_isSome, Option.isSome_iff_exists] at known
      obtain ⟨namesake, found⟩ := known
      have named := functions.name_of_get? function.name namesake found
      refine ⟨.application namesake inner, ⟨by rw [named, found], innerResolved⟩, ?_, ?_⟩
      · simp [Formula.tokens, innerTokens, named]
      · simp [Formula.same, NamedFunction.sameName, innerSame, named]

theorem tokens_of_same (left right : Formula) (same : left.same right = true) :
    left.tokens = right.tokens :=
  ((Formula.same_iff left right).mp same).tokens_eq

theorem registered_of_resolved (functions : Registry) (formula : Formula)
    (resolved : formula.ResolvedBy functions) :
    ∀ name ∈ formula.functionNames, functions.contains name = true := by
  induction formula with
  | constant value => simp [Formula.functionNames]
  | reference name => simp [Formula.functionNames]
  | operation operator left right ihLeft ihRight =>
      intro name member
      rcases List.mem_append.mp member with earlier | later
      · exact ihLeft resolved.1 name earlier
      · exact ihRight resolved.2 name later
  | application function argument ih =>
      intro name member
      rcases List.mem_append.mp member with earlier | last
      · exact ih resolved.2 name earlier
      · simp only [List.mem_singleton] at last
        rw [last, contains_eq_isSome, resolved.1]
        rfl

theorem expressible_of_tokens (functions : Registry) (formula : Formula) (text : String)
    (tokens : formulaTokens text = formula.tokens)
    (registered : ∀ name ∈ formula.functionNames, functions.contains name = true) :
    formula.Expressible functions := by
  constructor
  · intro name member
    rw [← formula.references_tokens, ← tokens, Token.mem_names_iff] at member
    obtain ⟨word, found, same⟩ := List.mem_map.mp member
    rw [ofWord_eq_name] at same
    obtain ⟨rfl, noNumber, noOperator, noCall⟩ := same
    obtain ⟨nonempty, unbroken⟩ := unbroken_of_mem_words text word found
    exact ⟨nonempty, unbroken, noNumber, (ofSymbol?_eq_none word).mp noOperator,
      (calledName?_eq_none word).mp noCall⟩
  · intro name member
    refine ⟨?_, registered name member⟩
    rw [← formula.functionNames_tokens, ← tokens] at member
    obtain ⟨token, belongs, isCall⟩ := List.mem_filterMap.mp member
    obtain ⟨word, found, same⟩ := List.mem_map.mp belongs
    have token_eq : token = .call name := by
      cases token <;> simp [Token.call?] at isCall
      rw [isCall]
    rw [token_eq] at same
    have split := (calledName?_eq_some word name).mp (calledName?_of_ofWord word name same)
    obtain ⟨_, unbroken⟩ := unbroken_of_mem_words text word found
    intro character inside
    exact unbroken character (by simp [split, inside])

/-- Some text stands for a tree exactly when the names in the tree can be told from other words and its
functions are registered, and then the postfix text of the tree is such a text. -/
theorem postfixText_reparses (functions : Registry) (formula : Formula) :
    List.TFAE [
      ∃ text parsed, parseFormula functions text = .ok parsed ∧ parsed.same formula = true,
      formula.Expressible functions,
      ∃ parsed, parseFormula functions formula.postfixText = .ok parsed ∧
        parsed.same formula = true] := by
  tfae_have 1 → 2 := by
    rintro ⟨text, parsed, read, same⟩
    obtain ⟨tokens, resolved⟩ := (parseTokens_eq_ok functions _ parsed).mp read
    have equal := tokens_of_same parsed formula same
    apply expressible_of_tokens functions formula text (tokens.trans equal)
    rw [← formula.functionNames_tokens, ← equal, parsed.functionNames_tokens]
    exact registered_of_resolved functions parsed resolved
  tfae_have 2 → 3 := by
    intro expressible
    obtain ⟨resolved, known, tokens, same⟩ := exists_resolved functions formula
      fun name member => (expressible.calls name member).2
    refine ⟨resolved, ?_, same⟩
    rw [parseFormula, parseTokens_eq_ok, formulaTokens_postfixText functions formula expressible]
    exact ⟨tokens.symm, known⟩
  tfae_have 3 → 1 := by
    rintro ⟨parsed, read, same⟩
    exact ⟨formula.postfixText, parsed, read, same⟩
  tfae_finish

end PostfixSheet
