import CallbackLint.Proofs.Report.Reading

namespace CallbackLint

/-!
# Reading back what is written

A value is written as its tokens, with blanks in between and strings escaped.  The first
pass of the reader finds these tokens again, at any depth of nesting, and the second puts
them together to the value.

Both passes follow the writing from the inside to the outside: what is read of a value is
stated for anything that may come after it, and in the second pass for anything that may
be open around it.
-/

namespace Json

/-! ## The tokens of a value -/

mutual

/-- The tokens of a value. -/
def tokensOf : Json → List Token
  | null => [.null]
  | integer value => [.integer value]
  | text value => [.text value]
  | list [] => [.openList, .closeList]
  | list (item :: rest) => .openList :: (tokensOf item ++ tokensOfItems rest ++ [.closeList])
  | object [] => [.openObject, .closeObject]
  | object ((key, value) :: rest) =>
    .openObject :: .text key :: .colon :: (tokensOf value ++ tokensOfEntries rest ++ [.closeObject])

def tokensOfItems : List Json → List Token
  | [] => []
  | item :: rest => .comma :: (tokensOf item ++ tokensOfItems rest)

def tokensOfEntries : List (String × Json) → List Token
  | [] => []
  | (key, value) :: rest =>
    .comma :: .text key :: .colon :: (tokensOf value ++ tokensOfEntries rest)

end

/-- The rest of a document after a value is read as some tokens, and goes on with no word. -/
structure Follows (rest : List Char) (tokens : List Token) : Prop where
  ends : EndsWord rest
  reads : tokens? .between rest = some tokens

theorem follows_nil : Follows [] [] := ⟨endsWord_nil, rfl⟩

theorem reads_mark {char : Char} {token : Token} {rest : List Char} {tokens : List Token}
    (isMark : start char = some ([token], .between)) (reads : tokens? .between rest = some tokens) :
    tokens? .between (char :: rest) = some (token :: tokens) := by
  have advances : advance .between char = some ([token], .between) := isMark
  rw [tokens?_cons advances, reads]
  rfl

theorem reads_margin {rest : List Char} {tokens : List Token}
    (reads : tokens? .between rest = some tokens) (depth : Nat) :
    tokens? .between (margin depth ++ rest) = some tokens := by
  rw [tokens?_margin, reads]

theorem reads_quote {rest : List Char} {tokens : List Token}
    (reads : tokens? .between rest = some tokens) (text : String) :
    tokens? .between (quote text.toList ++ rest) = some (.text text :: tokens) := by
  rw [tokens?_quote, reads]
  rfl

theorem reads_integer {rest : List Char} {tokens : List Token} (follows : Follows rest tokens)
    (value : Int) :
    tokens? .between ((toString value).toList ++ rest) = some (.integer value :: tokens) := by
  have nonempty : (toString value).toList ≠ [] := by
    intro empty
    have read := integer?_toString value
    rw [empty] at read
    cases read
  have bare : ∀ char ∈ (toString value).toList, isBare char = true := by
    intro char isIn
    rcases isDigit_or_of_mem_toString isIn with digit | rfl
    · exact isBare_of_isDigit digit
    · decide
  rw [tokens?_word nonempty bare (word?_toString value) follows.ends, follows.reads]
  rfl

/-- The key of an entry, and what stands between it and the value. -/
theorem reads_key {rest : List Char} {tokens : List Token}
    (reads : tokens? .between rest = some tokens) (depth : Nat) (key : String) :
    tokens? .between (margin depth ++ (quote key.toList ++ (':' :: ' ' :: rest))) =
      some (.text key :: .colon :: tokens) := by
  have blank : tokens? .between (' ' :: rest) = some tokens := by
    rw [tokens?_cons_nil rfl, reads]
  exact reads_margin (reads_quote (reads_mark rfl blank) key) depth

/-- What closes a list or an object stands in a line of its own. -/
theorem Follows.close {char : Char} {token : Token} {rest : List Char} {tokens : List Token}
    (isMark : start char = some ([token], .between)) (follows : Follows rest tokens)
    (depth : Nat) : Follows (margin depth ++ (char :: rest)) (token :: tokens) where
  ends := endsWord_cons (by decide) _
  reads := reads_margin (reads_mark isMark follows.reads) depth

theorem Follows.comma {rest : List Char} {tokens : List Token}
    (reads : tokens? .between rest = some tokens) : Follows (',' :: rest) (.comma :: tokens) where
  ends := endsWord_cons (by decide) _
  reads := reads_mark rfl reads

mutual

/-- A value is read as its tokens at any depth. -/
theorem reads_write {rest : List Char} {tokens : List Token} (follows : Follows rest tokens)
    (depth : Nat) : (value : Json) →
    tokens? .between (write depth value ++ rest) = some (tokensOf value ++ tokens)
  | null => by
      have bare : ∀ char ∈ "null".toList, isBare char = true := List.all_eq_true.mp (by decide)
      rw [write, tokens?_word (by decide) bare rfl follows.ends, follows.reads]
      rfl
  | integer value => by
      rw [write, reads_integer follows]
      rfl
  | text value => by
      rw [write, reads_quote follows.reads]
      rfl
  | list [] => by
      rw [write]
      exact reads_mark rfl (reads_mark rfl follows.reads)
  | list (item :: items) => by
      -- From the end to the front: what closes the list, its later items, the first one.
      have closed : Follows (margin depth ++ (']' :: rest)) (.closeList :: tokens) :=
        follows.close rfl depth
      have inside := reads_write (follows_writeItems closed (depth + 1) items) (depth + 1) item
      have bracket : start '[' = some ([.openList], .between) := rfl
      have opened := reads_mark bracket (reads_margin inside (depth + 1))
      rw [write, tokensOf]
      simpa only [List.cons_append, List.append_assoc, List.nil_append] using opened
  | object [] => by
      rw [write]
      exact reads_mark rfl (reads_mark rfl follows.reads)
  | object ((key, value) :: entries) => by
      have closed : Follows (margin depth ++ ('\x7d' :: rest)) (.closeObject :: tokens) :=
        follows.close rfl depth
      have inside :=
        reads_write (follows_writeEntries closed (depth + 1) entries) (depth + 1) value
      have brace : start '\x7b' = some ([.openObject], .between) := rfl
      have opened := reads_mark brace (reads_key inside (depth + 1) key)
      rw [write, tokensOf]
      simpa only [List.cons_append, List.append_assoc, List.nil_append] using opened

theorem follows_writeItems {rest : List Char} {tokens : List Token}
    (follows : Follows rest tokens) (depth : Nat) : (items : List Json) →
    Follows (writeItems depth items ++ rest) (tokensOfItems items ++ tokens)
  | [] => follows
  | item :: items => by
      have inside := reads_write (follows_writeItems follows depth items) depth item
      have next := Follows.comma (reads_margin inside depth)
      rw [writeItems, tokensOfItems]
      simpa only [List.cons_append, List.append_assoc] using next

theorem follows_writeEntries {rest : List Char} {tokens : List Token}
    (follows : Follows rest tokens) (depth : Nat) : (entries : List (String × Json)) →
    Follows (writeEntries depth entries ++ rest) (tokensOfEntries entries ++ tokens)
  | [] => follows
  | (key, value) :: entries => by
      have inside := reads_write (follows_writeEntries follows depth entries) depth value
      have next := Follows.comma (reads_key inside depth key)
      rw [writeEntries, tokensOfEntries]
      simpa only [List.cons_append, List.append_assoc, List.nil_append] using next

end

/-! ## Putting values together -/

theorem run?_cons {state next : State} {token : Token} (steps : step? state token = some next)
    (tokens : List Token) : run? state (token :: tokens) = run? next tokens := by
  rw [run?, List.foldlM_cons, steps]
  rfl

/-- The first item of a list begins like any other value. -/
theorem run?_firstItem (frames : List Frame) (value : Json) (tokens : List Token) :
    run? (.firstItem frames) (tokensOf value ++ tokens) =
      run? (.value (.list [] :: frames)) (tokensOf value ++ tokens) := by
  cases value with
  | list items => cases items <;> rfl
  | object entries => cases entries <;> rfl
  | _ => rfl

mutual

/-- A value is complete after its tokens, whatever is open around it. -/
theorem run?_tokensOf (frames : List Frame) (tokens : List Token) : (value : Json) →
    run? (.value frames) (tokensOf value ++ tokens) = run? (.after value frames) tokens
  | null => run?_cons rfl tokens
  | integer _ => run?_cons rfl tokens
  | text _ => run?_cons rfl tokens
  | list [] => by
      rw [tokensOf, List.cons_append, run?_cons rfl, List.cons_append, run?_cons rfl,
        List.nil_append]
  | list (item :: items) => by
      rw [tokensOf, List.cons_append, run?_cons rfl, List.append_assoc, List.append_assoc,
        List.singleton_append, run?_firstItem, run?_tokensOf, run?_tokensOfItems,
        List.nil_append]
  | object [] => by
      rw [tokensOf, List.cons_append, run?_cons rfl, List.cons_append, run?_cons rfl,
        List.nil_append]
  | object ((key, value) :: entries) => by
      rw [tokensOf, List.cons_append, run?_cons rfl, List.cons_append, run?_cons rfl,
        List.cons_append, run?_cons rfl, List.append_assoc, List.append_assoc,
        List.singleton_append, run?_tokensOf, run?_tokensOfEntries, List.nil_append]

theorem run?_tokensOfItems (frames : List Frame) (done : List Json) (item : Json)
    (tokens : List Token) : (items : List Json) →
    run? (.after item (.list done :: frames)) (tokensOfItems items ++ (.closeList :: tokens)) =
      run? (.after (.list (done ++ item :: items)) frames) tokens
  | [] => run?_cons rfl tokens
  | next :: items => by
      rw [tokensOfItems, List.cons_append, run?_cons rfl, List.append_assoc, run?_tokensOf,
        run?_tokensOfItems, List.append_assoc, List.singleton_append]

theorem run?_tokensOfEntries (frames : List Frame) (done : List (String × Json)) (key : String)
    (value : Json) (tokens : List Token) : (entries : List (String × Json)) →
    run? (.after value (.object done key :: frames))
        (tokensOfEntries entries ++ (.closeObject :: tokens)) =
      run? (.after (.object (done ++ (key, value) :: entries)) frames) tokens
  | [] => run?_cons rfl tokens
  | (nextKey, nextValue) :: entries => by
      rw [tokensOfEntries, List.cons_append, run?_cons rfl, List.cons_append, run?_cons rfl,
        List.cons_append, run?_cons rfl, List.append_assoc, run?_tokensOf,
        run?_tokensOfEntries, List.append_assoc, List.singleton_append]

end

/-- A list ends with its bracket. -/
theorem getLast?_write_list (depth : Nat) (items : List Json) :
    ((list items).write depth).getLast? = some ']' := by
  cases items with
  | nil => rfl
  | cons item rest =>
      rw [write, ← List.cons_append]
      exact List.getLast?_concat

/-- Values are read back from the documents that are written for them. -/
theorem parse?_write (depth : Nat) (value : Json) : parse? (write depth value) = some value := by
  have tokens : tokens? .between (write depth value) = some (tokensOf value) := by
    have reads := reads_write follows_nil depth value
    rwa [List.append_nil, List.append_nil] at reads
  have complete : run? (.value []) (tokensOf value) = some (.after value []) := by
    have runs := run?_tokensOf [] [] value
    rwa [List.append_nil] at runs
  rw [parse?, tokens]
  exact congrArg (Option.bind · _) complete

end Json

end CallbackLint
