import Caching.Proofs.Json.Numbers
import Caching.Proofs.Json.Strings
import Mathlib.Data.List.Chain

/-!
# Reading tokens

The tokens of a text do not depend on the number of steps that reading them may take. The tokens of
any layout of lexemes are the ones that the lexemes stand for, one by one, as far as all numbers are
plain.
-/

namespace Caching.Json

/-! ### Every token takes characters -/

private theorem eq_of_map_push {r : Option (List Char × List Char)} {c : Char} {s rest : List Char}
    (h : r.map (push c) = some (s, rest)) : ∃ s', r = some (s', rest) := by
  obtain ⟨⟨s', rest'⟩, hr, hpair⟩ := Option.map_eq_some_iff.mp h
  cases hpair
  exact ⟨s', hr⟩

private theorem length_readString {cs s rest : List Char} (h : readString cs = some (s, rest)) :
    rest.length < cs.length := by
  fun_induction readString cs generalizing s with
  | case1 =>
    cases h
    exact Nat.lt_succ_self _
  | case4 _ _ _ _ _ _ _ _ _ _ _ _ _ _ _ ih | case8 _ _ _ _ _ _ _ _ _ ih
  | case9 _ _ _ _ _ ih | case12 _ _ _ _ _ _ ih =>
    obtain ⟨s', hs⟩ := eq_of_map_push h
    have hshorter := ih hs
    simp only [List.length_cons]
    omega
  | _ => cases h

private theorem length_readNumber {negative : Bool} {cs rest : List Char} {n : Number}
    (h : readNumber negative cs = some (n, rest)) : rest.length < cs.length := by
  unfold readNumber at h
  split at h
  · cases h
  · next c tail =>
    split at h
    · cases h
    · split at h
      · exact Nat.lt_succ_of_le (isFloat_of_readTail h).2
      · cases h
        exact Nat.lt_succ_self _
  · next c tail _ =>
    split at h
    · cases h
    · next hdigit =>
      have htaken : (readSignificand 0 0 0 (c :: tail)).2.2.2.length < (c :: tail).length := by
        rw [readSignificand, if_neg hdigit]
        dsimp only
        split
        · exact Nat.lt_succ_of_le (length_readSignificand _ _ _ tail)
        · exact Nat.lt_succ_of_le (length_readSignificand _ _ _ tail)
      dsimp only at h
      split at h
      · exact Nat.lt_of_le_of_lt (isFloat_of_readTail h).2 htaken
      · split at h
        · cases h
          exact htaken
        · split at h
          · exact Nat.lt_of_le_of_lt (isFloat_of_readTail h).2 htaken
          · cases h
            exact htaken

private theorem length_readToken {c : Char} {cs rest : List Char} {t : Token}
    (h : readToken c cs = some (t, rest)) : rest.length ≤ cs.length := by
  unfold readToken at h
  split at h
  · cases h; simp
  · cases h; simp
  · cases h; simp
  · cases h; simp
  · cases h; simp
  · cases h; simp
  · obtain ⟨⟨s, r⟩, hs, hpair⟩ := Option.map_eq_some_iff.mp h
    cases hpair
    exact Nat.le_of_lt (length_readString hs)
  · cases h; simp only [List.length_cons]; omega
  · cases h; simp only [List.length_cons]; omega
  · cases h; simp only [List.length_cons]; omega
  · obtain ⟨⟨n, r⟩, hn, hpair⟩ := Option.map_eq_some_iff.mp h
    cases hpair
    exact Nat.le_of_lt (length_readNumber hn)
  · obtain ⟨⟨n, r⟩, hn, hpair⟩ := Option.map_eq_some_iff.mp h
    cases hpair
    exact Nat.le_of_lt_succ (length_readNumber hn)

/-! ### Any number of steps that suffices -/

private theorem readTokens_eq {count enough : Nat} {cs : List Char} (hcount : cs.length ≤ count)
    (henough : cs.length ≤ enough) : readTokens count cs = readTokens enough cs := by
  induction count generalizing enough cs with
  | zero =>
    obtain rfl := List.length_eq_zero_iff.mp (Nat.le_zero.mp hcount)
    cases enough <;> rfl
  | succ count ih =>
    cases enough with
    | zero =>
      obtain rfl := List.length_eq_zero_iff.mp (Nat.le_zero.mp henough)
      rfl
    | succ enough =>
      have hdrop : (cs.dropWhile isSpace).length ≤ cs.length :=
        (List.dropWhile_suffix _).length_le
      rw [readTokens, readTokens]
      cases hcs : cs.dropWhile isSpace with
      | nil => rfl
      | cons c rest =>
        rw [hcs, List.length_cons] at hdrop
        dsimp only
        cases htoken : readToken c rest with
        | none => rfl
        | some r =>
          have hrest := length_readToken htoken
          dsimp only
          rw [ih (by omega) (by omega : r.2.length ≤ enough)]

private theorem tokens_append {blanks : List Char} (h : ∀ c ∈ blanks, isSpace c = true)
    (cs : List Char) : tokens (blanks ++ cs) = tokens cs := by
  induction blanks with
  | nil => rfl
  | cons c rest ih =>
    have hdrop : (c :: (rest ++ cs)).dropWhile isSpace = (rest ++ cs).dropWhile isSpace := by
      simp [h c List.mem_cons_self]
    calc tokens (c :: (rest ++ cs))
        = readTokens ((rest ++ cs).length + 1) (c :: (rest ++ cs)) := rfl
      _ = readTokens ((rest ++ cs).length + 1) (rest ++ cs) := by
        rw [readTokens, readTokens, hdrop]
      _ = tokens (rest ++ cs) := readTokens_eq (Nat.le_succ _) (Nat.le_refl _)
      _ = tokens cs := ih fun d hd ↦ h d (List.mem_cons_of_mem c hd)

private theorem tokens_cons {c : Char} {cs : List Char} (hspace : isSpace c = false) :
    tokens (c :: cs) = match readToken c cs with
      | some (t, rest) => t :: tokens rest
      | none => [.malformed] := by
  have hdrop : (c :: cs).dropWhile isSpace = c :: cs := by simp [hspace]
  rw [tokens, List.length_cons, readTokens, hdrop]
  dsimp only
  cases htoken : readToken c cs with
  | none => rfl
  | some r =>
    dsimp only
    rw [readTokens_eq (length_readToken htoken) (Nat.le_refl _), tokens]

/-! ### The tokens of lexemes -/

/-- The token that a lexeme stands for; for a number only if it is plain. -/
def Lexeme.token? : Lexeme → Option Token
  | openBrace => some .openBrace
  | closeBrace => some .closeBrace
  | openBracket => some .openBracket
  | closeBracket => some .closeBracket
  | comma => some .comma
  | colon => some .colon
  | null => some .null
  | flag b => some (.flag b)
  | text s => some (.text s)
  | number l => l.word?.map fun n ↦ .number (.whole n)

/-- A token of a number that is none of 64 bits, or of what is no number after all. -/
def Token.IsOdd (t : Token) : Prop :=
  t = .malformed ∨ ∃ n, t = .number n ∧ ∀ word, n ≠ .whole word

/-- The tokens are those of the lexemes up to the first number that is not plain, and are not told
from there on. -/
inductive Scans : List Lexeme → List Token → Prop where
  | nil : Scans [] []
  | cons {lexeme : Lexeme} {t : Token} {lexemes : List Lexeme} {ts : List Token}
      (h : lexeme.token? = some t) (hrest : Scans lexemes ts) : Scans (lexeme :: lexemes) (t :: ts)
  | odd {l : Literal} {t : Token} {lexemes : List Lexeme} {ts : List Token}
      (h : l.word? = none) (hodd : t.IsOdd) : Scans (.number l :: lexemes) (t :: ts)

/-- The lexeme is a number. -/
def Lexeme.isNumber : Lexeme → Bool
  | number _ => true
  | _ => false

private theorem Lexeme.eq_number {x : Lexeme} (h : x.isNumber = true) : ∃ l, x = .number l := by
  cases x with
  | number l => exact ⟨l, rfl⟩
  | _ => cases h

/-- No two numbers stand side by side, where they would run together. -/
def Separated (lexemes : List Lexeme) : Prop :=
  lexemes.IsChain fun x y ↦ ¬ (x.isNumber = true ∧ y.isNumber = true)

private theorem readToken_of_spells {lexeme : Lexeme} {body : List Char}
    (hbody : lexeme.Spells body) (hlexeme : lexeme.isNumber = false) (after : List Char) :
    ∃ c rest t, body = c :: rest ∧ isSpace c = false ∧ lexeme.token? = some t ∧
      readToken c (rest ++ after) = some (t, after) := by
  cases hbody with
  | text h =>
    refine ⟨_, _, _, rfl, rfl, rfl, ?_⟩
    simp [readToken, readString_of_spells h]
  | number l => cases hlexeme
  | _ => exact ⟨_, _, _, rfl, rfl, rfl, rfl⟩

private theorem endsNumber_of_spells {lexeme : Lexeme} {body : List Char}
    (hbody : lexeme.Spells body)
    (hlexeme : lexeme.isNumber = false) (after : List Char) : EndsNumber (body ++ after) := by
  cases hbody with
  | number l => cases hlexeme
  | _ => exact ⟨by rintro c rest ⟨⟩; rfl, rfl⟩

private theorem endsNumber_of_isSpace {c : Char} (h : isSpace c = true) (after : List Char) :
    EndsNumber (c :: after) := by
  have hc : c = ' ' ∨ c = '\t' ∨ c = '\n' ∨ c = '\r' := by simpa [isSpace, or_assoc] using h
  rcases hc with rfl | rfl | rfl | rfl
  all_goals exact ⟨by rintro c rest ⟨⟩; rfl, rfl⟩

private theorem endsNumber_of_layout {lexemes : List Lexeme} {text : List Char}
    (h : Layout lexemes text)
    (hhead : ∀ x ∈ lexemes.head?, x.isNumber = false) : EndsNumber text := by
  cases h with
  | done hblanks =>
    cases text with
    | nil => exact ⟨by rintro c rest ⟨⟩, rfl⟩
    | cons c rest => exact endsNumber_of_isSpace (hblanks c List.mem_cons_self) rest
  | @next blanks body after lexeme rest hblanks hbody hrest =>
    cases blanks with
    | nil => exact endsNumber_of_spells hbody (hhead lexeme rfl) after
    | cons c blanks => exact endsNumber_of_isSpace (hblanks c List.mem_cons_self) _

private theorem readToken_literal (l : Literal) (after : List Char) :
    ∃ c rest, l.text = c :: rest ∧ isSpace c = false ∧ readToken c (rest ++ after) =
      (readNumber l.negative (l.magnitude ++ after)).map fun r ↦ (.number r.1, r.2) := by
  cases hnegative : l.negative with
  | true =>
    exact ⟨'-', l.magnitude, by simp [Literal.text, hnegative], rfl, rfl⟩
  | false =>
    obtain ⟨c, rest, hwhole⟩ := List.exists_cons_of_ne_nil l.isNumeral_whole.nonempty
    have hdigit := l.isNumeral_whole.digits c (hwhole ▸ List.mem_cons_self)
    have hstart : isSpace c = false ∧ ∀ cs, readToken c cs =
        (readNumber false (c :: cs)).map fun r ↦ (.number r.1, r.2) := by
      apply Text.forall_digit hdigit
      intro n
      match n with
      | 0 | 1 | 2 | 3 | 4 | 5 | 6 | 7 | 8 | 9 => exact ⟨rfl, fun cs ↦ rfl⟩
    refine ⟨c, rest ++ l.fraction ++ l.exponent, ?_, hstart.1, ?_⟩
    · simp [Literal.text, Literal.magnitude, hnegative, hwhole]
    · rw [hstart.2, Literal.magnitude, hwhole]
      simp

private theorem tokens_literal (l : Literal) {after : List Char} (hafter : EndsNumber after) :
    (∃ n, l.word? = some n ∧ tokens (l.text ++ after) = .number (.whole n) :: tokens after) ∨
      l.word? = none ∧ ∃ t ts, t.IsOdd ∧ tokens (l.text ++ after) = t :: ts := by
  obtain ⟨c, rest, htext, hspace, hread⟩ := readToken_literal l after
  rw [htext, List.cons_append, tokens_cons hspace, hread]
  cases hword : l.word? with
  | some n =>
    rw [(readNumber_eq_whole_iff hafter).mpr ⟨hword, rfl⟩]
    exact .inl ⟨n, rfl, rfl⟩
  | none =>
    refine .inr ⟨rfl, ?_⟩
    cases hnumber : readNumber l.negative (l.magnitude ++ after) with
    | none => exact ⟨.malformed, [], .inl rfl, rfl⟩
    | some r =>
      refine ⟨.number r.1, tokens r.2, .inr ⟨r.1, rfl, fun word hr ↦ ?_⟩, rfl⟩
      have hwhole : readNumber l.negative (l.magnitude ++ after) = some (.whole word, r.2) := by
        rw [hnumber, ← hr]
      rw [readNumber_eq_whole_iff hafter, hword] at hwhole
      cases hwhole.1

private theorem scans_of_layout {lexemes : List Lexeme} {text : List Char} (h : Layout lexemes text)
    (hseparated : Separated lexemes) : Scans lexemes (tokens text) := by
  induction h with
  | @done blanks hblanks =>
    rw [← List.append_nil blanks, tokens_append hblanks]
    exact .nil
  | @next blanks body text lexeme rest hblanks hbody hrest ih =>
    obtain ⟨hnext, hseparated⟩ := List.isChain_cons.mp hseparated
    have hscans := ih hseparated
    rw [List.append_assoc, tokens_append hblanks]
    cases hlexeme : lexeme.isNumber with
    | true =>
      obtain ⟨l, rfl⟩ := Lexeme.eq_number hlexeme
      cases hbody
      have hafter := endsNumber_of_layout hrest fun x hx ↦
        Bool.eq_false_iff.mpr fun hnumber ↦ hnext x hx ⟨rfl, hnumber⟩
      rcases tokens_literal l hafter with ⟨n, hword, htokens⟩ | ⟨hword, t, ts, hodd, htokens⟩
      · rw [htokens]
        exact .cons (by rw [Lexeme.token?, hword]; rfl) hscans
      · rw [htokens]
        exact .odd hword hodd
    | false =>
      obtain ⟨c, tail, t, rfl, hspace, ht, hread⟩ := readToken_of_spells hbody hlexeme text
      rw [List.cons_append, tokens_cons hspace, hread]
      exact .cons ht hscans

/-! ### The lexemes of values -/

private theorem separated_append {front back : List Lexeme} {mark : Lexeme}
    (hmark : mark.isNumber = false)
    (hfront : Separated front) (hback : Separated back) : Separated (front ++ mark :: back) := by
  refine List.isChain_append.mpr ⟨hfront, List.isChain_cons.mpr ⟨?_, hback⟩, ?_⟩
  · rintro y - ⟨hnumber, -⟩
    rw [hmark] at hnumber
    cases hnumber
  · rintro x - y hy ⟨-, hnumber⟩
    cases hy
    rw [hmark] at hnumber
    cases hnumber

private theorem separated_cons {mark : Lexeme} {back : List Lexeme} (hmark : mark.isNumber = false)
    (hback : Separated back) : Separated (mark :: back) :=
  @separated_append [] back mark hmark .nil hback

private theorem separated_enclose {opening closing : Lexeme} {inner : List Lexeme}
    (hopening : opening.isNumber = false) (hclosing : closing.isNumber = false)
    (hinner : Separated inner) : Separated (opening :: inner ++ [closing]) :=
  separated_cons hopening (separated_append hclosing hinner .nil)

mutual

private theorem Value.separated_lexemes : (v : Value) → Separated v.lexemes
  | .null => .singleton _
  | .flag _ => .singleton _
  | .text _ => .singleton _
  | .number _ => .singleton _
  | .array elements => by
    rw [Value.lexemes]
    exact separated_enclose rfl rfl (separated_elementLexemes elements)
  | .object members => by
    rw [Value.lexemes]
    exact separated_enclose rfl rfl (separated_memberLexemes members)

theorem separated_elementLexemes : (elements : List Value) → Separated (elementLexemes elements)
  | [] => .nil
  | [v] => v.separated_lexemes
  | v :: w :: rest => by
    rw [elementLexemes]
    exact separated_append rfl v.separated_lexemes (separated_elementLexemes (w :: rest))

theorem separated_memberLexemes :
    (members : List (String × Value)) → Separated (memberLexemes members)
  | [] => .nil
  | [(key, v)] => by
    rw [memberLexemes]
    exact separated_cons rfl (separated_cons rfl v.separated_lexemes)
  | (key, v) :: m :: rest => by
    rw [memberLexemes]
    exact separated_cons rfl (separated_cons rfl
      (separated_append rfl v.separated_lexemes (separated_memberLexemes (m :: rest))))

end

/-- The tokens of a text that spells a value are those of its lexemes. -/
theorem Value.Spells.scans {v : Value} {text : List Char} (h : v.Spells text) :
    Scans v.lexemes (tokens text) :=
  scans_of_layout h v.separated_lexemes

end Caching.Json
