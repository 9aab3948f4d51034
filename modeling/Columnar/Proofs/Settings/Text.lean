import Columnar.Proofs.Action
import Columnar.Proofs.Files
import Columnar.Proofs.Settings.Basic
import Columnar.Proofs.Settings.Token
import Columnar.Settings.Text

/-!
# Reading what was written

The text of a tree goes through its tokens (`Settings.tokens`), which are the same in every layout
of blanks: the written text lexes to them (`lexes_writeEntries`), and they are read as the tree
(`readEntries_tokens`). Reading adds entry by entry to those read before, and since the keys of a
tree ascend each goes to the end.

Main result: `read?_write`, for ordered trees of a nesting that is allowed when read. So a tree that
was saved under a name is loaded from it (`load_of_save`).
-/

namespace Columnar

/-- The objects and arrays that a scalar is within, its entry's object among them. -/
def Scalar.nesting : Scalar → Nat
  | .strings _ => 2
  | _ => 1

theorem Scalar.one_le_nesting (v : Scalar) : 1 ≤ v.nesting := by
  cases v <;> simp [nesting]

namespace Settings

open Token (Lexes)

/-- Only blanks are put in, and the colon where it belongs. -/
structure TextLayout.Blank (l : TextLayout) : Prop where
  line : ∀ depth, ∀ c ∈ l.line depth, Token.isBlank c = true
  colon : ∃ blanks, l.colon = ':' :: blanks ∧ ∀ c ∈ blanks, Token.isBlank c = true

theorem blank_indented : TextLayout.indented.Blank where
  line depth c hc := by
    rcases List.mem_cons.mp hc with rfl | hc
    · rfl
    · rw [(List.mem_replicate.mp hc).2]
      rfl
  colon := ⟨[' '], rfl, fun c hc => by rw [List.mem_singleton.mp hc]; rfl⟩

theorem blank_compact : TextLayout.compact.Blank where
  line _ _ hc := nomatch hc
  colon := ⟨[], rfl, fun _ hc => nomatch hc⟩

/-! ## The tokens of a tree -/

/-- The tokens of some texts as the entries of an array. -/
def stringsTokens : List String → (after : List Token) → List Token
  | [], after => after
  | [s], after => .text s :: after
  | s :: ss, after => .text s :: .comma :: stringsTokens ss after

def scalarTokens : Scalar → (after : List Token) → List Token
  | .string v, after => .text v :: after
  | .int v, after => .int v.toInt :: after
  | .long v, after => .int v.toInt :: after
  | .bool v, after => .bool v :: after
  | .strings v, after => .openBracket :: stringsTokens v (.closeBracket :: after)

def separatorTokens : Settings → List Token
  | empty => []
  | _ => [.comma]

/-- The tokens of the entries of a tree. -/
def tokens : Settings → (after : List Token) → List Token
  | empty, after => after
  | scalar k v rest, after =>
    .text k :: .colon :: .openBrace :: .text (Value.scalar v).type.tag :: .colon ::
      scalarTokens v (.closeBrace :: (separatorTokens rest ++ rest.tokens after))
  | nested k t rest, after =>
    .text k :: .colon :: .openBrace :: .text EntryType.tree.tag :: .colon :: .openBrace ::
      t.tokens (.closeBrace :: .closeBrace :: (separatorTokens rest ++ rest.tokens after))

/-! ## From text to tokens -/

section Lexing

variable {l : TextLayout} {after : List Char} {ts : List Token}

theorem lexes_colon (hl : l.Blank) (h : Lexes after ts) :
    Lexes (l.colon ++ after) (.colon :: ts) := by
  obtain ⟨blanks, hcolon, hblank⟩ := hl.colon
  rw [hcolon]
  exact Token.lexes_punctuation rfl (Token.lexes_blanks hblank h)

theorem lexes_writeEnd (hl : l.Blank) (depth : Nat) {c : Char} {t : Token}
    (hc : Token.punctuation? c = some t) (h : Lexes after ts) :
    Lexes (writeEnd l depth c after) (t :: ts) :=
  Token.lexes_blanks (hl.line depth) (Token.lexes_punctuation hc h)

theorem endsNumber_writeEnd (hl : l.Blank) (depth : Nat) :
    Token.EndsNumber (writeEnd l depth '\x7d' after) := by
  intro c hc
  unfold writeEnd at hc
  cases hline : l.line depth with
  | nil =>
    rw [hline] at hc
    cases hc
    decide
  | cons b blanks =>
    have hb := hl.line depth b (hline ▸ List.mem_cons_self)
    rw [hline] at hc
    cases hc
    simp only [Token.isBlank, Bool.or_eq_true, decide_eq_true_eq] at hb
    rcases hb with ((rfl | rfl) | rfl) | rfl <;> decide

theorem lexes_writeStrings (hl : l.Blank) (depth : Nat) (ss : List String)
    (h : Lexes after ts) : Lexes (writeStrings l depth ss after) (stringsTokens ss ts) := by
  induction ss with
  | nil => exact h
  | cons s ss ih =>
    cases ss with
    | nil => exact Token.lexes_blanks (hl.line depth) (Token.lexes_quoted s h)
    | cons s' ss =>
      exact Token.lexes_blanks (hl.line depth)
        (Token.lexes_quoted s (Token.lexes_punctuation rfl ih))

theorem lexes_writeScalar (hl : l.Blank) (depth : Nat) (v : Scalar)
    (hends : Token.EndsNumber after) (h : Lexes after ts) :
    Lexes (writeScalar l depth v after) (scalarTokens v ts) := by
  cases v with
  | string v => exact Token.lexes_quoted v h
  | int v =>
    have hle := v.le_toInt
    have hlt := v.toInt_lt
    exact Token.lexes_decimal (Token.length_toDigits_le (by rw [longLimit]; omega)) hends h
  | long v =>
    have hle := v.le_toInt
    have hlt := v.toInt_lt
    exact Token.lexes_decimal (Token.length_toDigits_le (by rw [longLimit]; omega)) hends h
  | bool v =>
    cases v with
    | true => exact Token.lexes_true h
    | false => exact Token.lexes_false h
  | strings v =>
    cases v with
    | nil => exact Token.lexes_punctuation rfl (Token.lexes_punctuation rfl h)
    | cons s ss =>
      exact Token.lexes_punctuation rfl
        (lexes_writeStrings hl (depth + 1) (s :: ss) (lexes_writeEnd hl depth rfl h))

theorem lexes_entryHead (hl : l.Blank) (depth : Nat) (key : String) (type : EntryType)
    (h : Lexes after ts) :
    Lexes (entryHead l depth key type ++ after)
      (.text key :: .colon :: .openBrace :: .text type.tag :: .colon :: ts) := by
  simp only [entryHead, List.append_assoc, List.cons_append, List.nil_append]
  refine Token.lexes_blanks (hl.line depth) (Token.lexes_quoted key (lexes_colon hl ?_))
  refine Token.lexes_punctuation rfl (Token.lexes_blanks (hl.line (depth + 1)) ?_)
  exact Token.lexes_quoted type.tag (lexes_colon hl h)

theorem lexes_separator (s : Settings) (h : Lexes after ts) :
    Lexes (separator s ++ after) (separatorTokens s ++ ts) := by
  cases s with
  | empty => exact h
  | scalar k v rest => exact Token.lexes_punctuation rfl h
  | nested k t rest => exact Token.lexes_punctuation rfl h

theorem lexes_writeBraces (hl : l.Blank) (depth : Nat) (s : Settings)
    {entries : List Char → List Char}
    (hentries : ∀ {after ts}, Lexes after ts → Lexes (entries after) (s.tokens ts))
    (h : Lexes after ts) :
    Lexes (writeBraces l depth s entries after)
      (.openBrace :: s.tokens (.closeBrace :: ts)) := by
  cases s with
  | empty => exact Token.lexes_punctuation rfl (Token.lexes_punctuation rfl h)
  | scalar k v rest =>
    exact Token.lexes_punctuation rfl (hentries (lexes_writeEnd hl depth rfl h))
  | nested k t rest =>
    exact Token.lexes_punctuation rfl (hentries (lexes_writeEnd hl depth rfl h))

/-- **The entries of a tree lex to its tokens.** -/
theorem lexes_writeEntries (hl : l.Blank) (depth : Nat) (s : Settings)
    (h : Lexes after ts) : Lexes (s.writeEntries l depth after) (s.tokens ts) := by
  induction s generalizing depth after ts with
  | empty => exact h
  | scalar k v rest ih =>
    refine lexes_entryHead hl depth k _ ?_
    refine lexes_writeScalar hl (depth + 1) v (endsNumber_writeEnd hl depth) ?_
    exact lexes_writeEnd hl depth rfl (lexes_separator rest (ih depth h))
  | nested k t rest iht ih =>
    refine lexes_entryHead hl depth k _ ?_
    refine lexes_writeBraces hl (depth + 1) t (fun h => iht (depth + 2) h) ?_
    exact lexes_writeEnd hl depth rfl (lexes_separator rest (ih depth h))

end Lexing

/-! ## From tokens to the tree -/

/-- The nesting that has to be allowed for the entries of a tree to be read. -/
def nesting : Settings → Nat
  | empty => 1
  | scalar _ v rest => max (v.nesting + 1) rest.nesting
  | nested _ t rest => max (t.nesting + 2) rest.nesting

/-- The nesting that has to be allowed for an entry with this value. -/
def Value.nesting : Value → Nat
  | .scalar v => v.nesting + 1
  | .tree t => t.nesting + 2

theorem nesting_cons (key : String) (v : Value) (rest : Settings) :
    (cons key v rest).nesting = max v.nesting rest.nesting := by
  cases v <;> rfl

/-- An entry that is added adds its own nesting. -/
theorem nesting_insert_le (key : String) (v : Value) (s : Settings) :
    (s.insert key v).nesting ≤ max v.nesting s.nesting := by
  induction s using cons_induction with
  | hempty => exact Nat.le_of_eq (nesting_cons key v empty)
  | hcons k w rest ih =>
    rw [insert_cons, nesting_cons]
    split
    · exact Nat.le_of_eq (by rw [nesting_cons, nesting_cons])
    split
    · rw [nesting_cons]
      omega
    · rw [nesting_cons]
      omega

/-- The number of entries, those of the trees in the tree included. -/
def entryCount : Settings → Nat
  | empty => 0
  | scalar _ _ rest => rest.entryCount + 1
  | nested _ t rest => t.entryCount + rest.entryCount + 1

theorem one_le_nesting (s : Settings) : 1 ≤ s.nesting := by
  induction s with
  | empty => exact Nat.le_refl 1
  | scalar k v rest ih => exact Nat.le_trans ih (Nat.le_max_right _ _)
  | nested k t rest _ ih => exact Nat.le_trans ih (Nat.le_max_right _ _)

theorem enter?_of_le {n : Nat} (h : 2 ≤ n) : enter? n = some (n - 1) := if_neg (by omega)

section Reading

variable {n fuel : Nat} {acc s : Settings} {rest after : List Token}

theorem readStrings_tokens {ss : List String} (h : ss ≠ []) (after : List Token) :
    readStrings (stringsTokens ss (.closeBracket :: after)) = some (ss, after) := by
  induction ss with
  | nil => exact absurd rfl h
  | cons s ss ih =>
    cases ss with
    | nil => rfl
    | cons s' ss =>
      rw [stringsTokens, readStrings, ih (List.cons_ne_nil s' ss)]
      · rfl
      · simp

theorem readScalar_tokens (v : Scalar) (hn : v.nesting ≤ n) :
    readScalar n (Value.scalar v).type.tag (scalarTokens v after) = some (v, after) := by
  cases v with
  | string v => simp [readScalar, scalarTokens, Value.type, EntryType.tag]
  | int v =>
    have hint : int32? v.toInt = some v := by
      rw [int32?, if_pos ⟨v.le_toInt, v.toInt_lt⟩, Int32.ofInt_toInt]
    simp [readScalar, scalarTokens, Value.type, EntryType.tag, hint]
  | long v =>
    have hint : int64? v.toInt = some v := by
      rw [int64?, if_pos ⟨v.le_toInt, v.toInt_lt⟩, Int64.ofInt_toInt]
    simp [readScalar, scalarTokens, Value.type, EntryType.tag, hint]
  | bool v => simp [readScalar, scalarTokens, Value.type, EntryType.tag]
  | strings v =>
    have henter := enter?_of_le (n := n) hn
    cases v with
    | nil => simp [readScalar, scalarTokens, stringsTokens, Value.type, EntryType.tag, henter]
    | cons s ss =>
      have hread := readStrings_tokens (List.cons_ne_nil s ss) after
      cases ss <;>
        simp_all [readScalar, scalarTokens, stringsTokens, Value.type, EntryType.tag]

/-- What is read behind the value of an entry. -/
def readOn (fuel n : Nat) (acc : Settings) : List Token → Option (Settings × List Token)
  | .closeBrace :: .comma :: rest => readEntries fuel n acc rest
  | .closeBrace :: .closeBrace :: rest => some (acc, rest)
  | _ => none

theorem readEntries_scalar {v : Scalar} (hn : v.nesting + 1 ≤ n) (acc : Settings) (key : String)
    (after : List Token) :
    readEntries (fuel + 1) n acc (.text key :: .colon :: .openBrace ::
        .text (Value.scalar v).type.tag :: .colon :: scalarTokens v after) =
      readOn fuel n (acc.insert key (.scalar v)) after := by
  have hpos := v.one_le_nesting
  have hread : readScalar (n - 1) (Value.scalar v).type.tag (scalarTokens v after) =
      some (v, after) := readScalar_tokens v (by omega)
  have htag : (Value.scalar v).type.tag ≠ EntryType.tree.tag := by
    cases v <;> simp [Value.type, EntryType.tag]
  rw [readEntries, enter?_of_le (by omega), Option.bind_eq_bind, Option.bind_some, if_neg htag,
    hread]
  rfl

/-- A tree as the value of an entry, given what reading its entries gives. -/
theorem readEntries_nested {t : Settings} (hn : t.nesting + 2 ≤ n) (acc : Settings) (key : String)
    (hread : t ≠ empty → readEntries fuel (n - 2) empty (t.tokens (.closeBrace :: after)) =
      some (t, after)) :
    readEntries (fuel + 1) n acc (.text key :: .colon :: .openBrace ::
        .text EntryType.tree.tag :: .colon :: .openBrace :: t.tokens (.closeBrace :: after)) =
      readOn fuel n (acc.insert key (.tree t)) after := by
  have hpos := t.one_le_nesting
  have hdeeper : n - 1 - 1 = n - 2 := rfl
  rw [readEntries, enter?_of_le (by omega), Option.bind_eq_bind, Option.bind_some, if_pos rfl,
    enter?_of_le (by omega), hdeeper]
  cases t with
  | empty => rfl
  | scalar k v rest =>
    have hread := hread (by simp)
    simp only [tokens] at hread ⊢
    simp only [Option.bind_eq_bind, Option.bind_some, hread]
    rfl
  | nested k t rest =>
    have hread := hread (by simp)
    simp only [tokens] at hread ⊢
    simp only [Option.bind_eq_bind, Option.bind_some, hread]
    rfl

/-- All keys of the tree come before those of the other one. -/
def Before (s t : Settings) : Prop := ∀ k ∈ s.keys, Above k t

theorem readOn_tokens {k : String} {v : Value} (hbefore : Before acc (cons k v s))
    (habove : Above k s)
    (hread : s ≠ empty → ∀ acc, Before acc s →
      readEntries fuel n acc (s.tokens (.closeBrace :: after)) = some (acc.append s, after)) :
    readOn fuel n (acc.insert k v)
        (.closeBrace :: (separatorTokens s ++ s.tokens (.closeBrace :: after))) =
      some (acc.append (cons k v s), after) := by
  have hlast : ∀ k' ∈ acc.keys, k' < k := fun k' hk' =>
    hbefore k' hk' k (by rw [keys_cons]; exact List.mem_cons_self)
  rw [insert_of_above hlast]
  rcases cons_cases s with rfl | ⟨k', v', rest, rfl⟩
  · rfl
  · have hread := hread (by cases v' <;> simp [cons]) (acc.append (cons k v empty)) (by
      intro j hj
      rcases mem_keys_append_cons.mp hj with hj | rfl
      · intro j' hj'
        exact hbefore j hj j' (by rw [keys_cons]; exact List.mem_cons_of_mem k hj')
      · exact habove)
    rw [← append_cons k v acc (cons k' v' rest), ← hread]
    cases v' <;> rfl

/-- **The tokens of a tree are read as its entries.** -/
theorem readEntries_tokens (s : Settings) (hs : s.Ordered) (hne : s ≠ empty)
    (hn : s.nesting ≤ n) (hfuel : s.entryCount ≤ fuel) (hbefore : Before acc s) :
    readEntries fuel n acc (s.tokens (.closeBrace :: after)) = some (acc.append s, after) := by
  induction s generalizing fuel n acc after with
  | empty => exact absurd rfl hne
  | scalar k v rest ih =>
    obtain ⟨habove, hrest⟩ := hs
    rw [nesting, Nat.max_le] at hn
    cases fuel with
    | zero => cases hfuel
    | succ fuel =>
      rw [tokens, readEntries_scalar hn.1]
      exact readOn_tokens (v := .scalar v) hbefore habove fun hne _ hbefore =>
        ih hrest hne hn.2 (Nat.le_of_succ_le_succ hfuel) hbefore
  | nested k t rest iht ih =>
    obtain ⟨habove, ht, hrest⟩ := hs
    rw [nesting, Nat.max_le] at hn
    cases fuel with
    | zero => cases hfuel
    | succ fuel =>
      rw [entryCount] at hfuel
      rw [tokens, readEntries_nested hn.1 acc k fun hne =>
        iht ht hne (by omega) (by omega) fun _ h => nomatch h]
      exact readOn_tokens (v := .tree t) hbefore habove fun hne _ hbefore =>
        ih hrest hne hn.2 (by omega) hbefore

end Reading

/-! ## The round trip -/

theorem length_le_stringsTokens (ss : List String) (after : List Token) :
    after.length ≤ (stringsTokens ss after).length := by
  induction ss with
  | nil => exact Nat.le_refl _
  | cons s ss ih =>
    cases ss with
    | nil => exact Nat.le_succ _
    | cons s' ss => exact Nat.le_trans ih (Nat.le_add_right _ 2)

theorem length_le_scalarTokens (v : Scalar) (after : List Token) :
    after.length ≤ (scalarTokens v after).length := by
  cases v with
  | strings ss =>
    have := length_le_stringsTokens ss (.closeBracket :: after)
    simp only [scalarTokens, List.length_cons] at this ⊢
    omega
  | _ => exact Nat.le_succ _

/-- Every entry has a token at least. -/
theorem entryCount_le (s : Settings) (after : List Token) :
    s.entryCount + after.length ≤ (s.tokens after).length := by
  induction s generalizing after with
  | empty => simp [entryCount, tokens]
  | scalar k v rest ih =>
    have := ih after
    have := length_le_scalarTokens v (.closeBrace :: (separatorTokens rest ++ rest.tokens after))
    simp only [entryCount, tokens, List.length_cons, List.length_append] at this ⊢
    omega
  | nested k t rest iht ih =>
    have := ih after
    have := iht (.closeBrace :: .closeBrace :: (separatorTokens rest ++ rest.tokens after))
    simp only [entryCount, tokens, List.length_cons, List.length_append] at this ⊢
    omega

/-- **A tree is read back from the tokens of its text.** -/
theorem ofTokens?_tokens {s : Settings} (hs : s.Ordered) (hn : s.nesting ≤ maxNesting) :
    ofTokens? (.openBrace :: s.tokens [.closeBrace]) = some s := by
  by_cases hne : s = empty
  · subst hne
    rfl
  · have hcount := entryCount_le s [.closeBrace]
    have hread : readEntries (Token.openBrace :: s.tokens [.closeBrace]).length maxNesting empty
        (s.tokens [.closeBrace]) = some (empty.append s, []) :=
      readEntries_tokens s hs hne hn
        (by simp only [List.length_cons, List.length_nil] at hcount ⊢; omega) fun _ h => nomatch h
    rcases cons_cases s with rfl | ⟨k, v, rest, rfl⟩
    · exact absurd rfl hne
    · cases v <;>
      · simp only [cons, tokens] at hread ⊢
        simp only [ofTokens?, hread, Option.bind_eq_bind, Option.bind_some]
        rfl

/-- The tree can be read back from its text where this nesting is allowed. -/
structure Readable (n : Nat) (s : Settings) : Prop where
  ordered : s.Ordered
  nesting_le : s.nesting ≤ n

/-- **What is written is read back.** -/
theorem read?_write {l : TextLayout} (hl : l.Blank) {s : Settings} (h : s.Readable maxNesting) :
    read? (s.write l) = some s := by
  have hlexes := lexes_writeBraces hl 0 s
    (fun h => lexes_writeEntries hl 1 s h) Token.lexes_nil
  have hlex := hlexes _ (Nat.le_refl _)
  rw [read?, write, String.toList_ofList, hlex]
  exact ofTokens?_tokens h.ordered h.nesting_le

/-! ## Putting together a tree that can be read -/

namespace Readable

variable {n : Nat} {s : Settings}

theorem empty (h : 1 ≤ n) : Settings.empty.Readable n := ⟨trivial, h⟩

theorem insert (h : s.Readable n) (key : String) {v : Value} (hv : v.Ordered)
    (hn : v.nesting ≤ n) : (s.insert key v).Readable n :=
  ⟨h.ordered.insert hv,
    Nat.le_trans (nesting_insert_le key v s) (Nat.max_le.mpr ⟨hn, h.nesting_le⟩)⟩

theorem addString (h : s.Readable n) (hn : 2 ≤ n) (key v : String) :
    (s.addString key v).Readable n := h.insert key trivial hn

theorem addLong (h : s.Readable n) (hn : 2 ≤ n) (key : String) (v : Int64) :
    (s.addLong key v).Readable n := h.insert key trivial hn

theorem addBool (h : s.Readable n) (hn : 2 ≤ n) (key : String) (v : Bool) :
    (s.addBool key v).Readable n := h.insert key trivial hn

theorem addStrings (h : s.Readable n) (hn : 3 ≤ n) (key : String) (v : List String) :
    (s.addStrings key v).Readable n := h.insert key trivial hn

theorem addTree {m : Nat} {t : Settings} (h : s.Readable n) (ht : t.Readable m) (hn : m + 2 ≤ n)
    (key : String) : (s.addTree key t).Readable n :=
  h.insert key ht.ordered (Nat.le_trans (Nat.add_le_add_right ht.nesting_le 2) hn)

end Readable

end Settings

end Columnar

namespace Columnar.Settings

/-! ## Files -/

variable {s : Settings} {path : String} {fs fs' : Files}

theorem load_of_read? {l : TextLayout} (hl : l.Blank) (hs : s.Readable maxNesting)
    (hread : fs.read? path = some (Utf8.encode (s.write l))) : load fs path = .ok s := by
  simp only [load, hread, Outcome.ofOption, Outcome.ok_bind, Utf8.decode_encode, ofText,
    read?_write hl hs]
  rfl

theorem read?_of_save (h : s.save path fs = (.ok (), fs')) :
    fs'.read? path = some (Utf8.encode (s.write .indented)) := by
  simp only [save, Action.mapError_apply, Action.bind_apply, Action.get_apply,
    Action.liftM_apply] at h
  cases hwrite : fs.write path (Utf8.encode (s.write .indented)) with
  | error e =>
    rw [hwrite] at h
    cases e <;> cases h
  | ok fs'' =>
    simp only [hwrite, Action.set_apply] at h
    cases h
    exact Files.read?_of_write hwrite

theorem save_of_name (s : Settings) (fs : Files) {name : String}
    (hname : Files.nameOf? path = some name) (hslash : name.contains '/' = false) :
    ∃ fs', s.save path fs = (.ok (), fs') := by
  obtain ⟨fs', hwrite⟩ := fs.write_of_name hname hslash (Utf8.encode (s.write .indented))
  refine ⟨fs', ?_⟩
  simp only [save, Action.mapError_apply, Action.bind_apply, Action.get_apply,
    Action.liftM_apply, hwrite, Action.set_apply]
  rfl

/-- **What was saved is loaded.** -/
theorem load_of_save (hs : s.Readable maxNesting) (h : s.save path fs = (.ok (), fs')) :
    load fs' path = .ok s := load_of_read? blank_indented hs (read?_of_save h)

end Columnar.Settings
