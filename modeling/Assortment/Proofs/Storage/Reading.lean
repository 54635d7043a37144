import Assortment.Storage.Statement

/-!
# Reading SQL texts

A reader of inserts and updates that knows nothing of how they were written. It takes a text apart into words
and marks and reads these from left to right. A name has to be plain: letters, digits and low lines, and no
digit in front.
-/

namespace Assortment.Storage
open Assortment.Text

/-- What a text says: the names, and for each place the number of the value that goes there. -/
inductive Sql where
  | insert (table : String) (columns : List String) (numbers : List Nat)
  | update (table : String) (assignments : List (String × Nat)) (keyColumn : String) (number : Nat)
deriving DecidableEq

namespace Sql

/-! ## Lexemes -/

inductive Lexeme where
  | word (s : String)
  | mark (c : Char)
deriving DecidableEq

def isWordChar (c : Char) : Bool := c.isAlphanum || c == '_' || c == '$'

/-- The lexemes of the rest of a text after the characters of a word that was begun. -/
def lexemes (begun : List Char) : List Char → List Lexeme
  | [] => if begun.isEmpty then [] else [.word (String.ofList begun)]
  | c :: cs =>
      if isWordChar c then lexemes (begun ++ [c]) cs
      else (if begun.isEmpty then [] else [.word (String.ofList begun)])
        ++ (if c = ' ' then [] else [.mark c]) ++ lexemes [] cs

structure IsWord (cs : List Char) : Prop where
  ne_nil : cs ≠ []
  chars : ∀ c ∈ cs, isWordChar c = true

variable {w rest : List Char} {c : Char}

theorem lexemes_append {begun : List Char} (h : ∀ c ∈ w, isWordChar c = true) :
    lexemes begun (w ++ rest) = lexemes (begun ++ w) rest := by
  induction w generalizing begun with
  | nil => simp
  | cons c w ih =>
      obtain ⟨hc, hw⟩ := List.forall_mem_cons.1 h
      rw [List.cons_append, lexemes, if_pos hc, ih hw]
      simp

theorem lexemes_word (h : IsWord w) : lexemes [] w = [.word (String.ofList w)] := by
  have happend : lexemes [] (w ++ []) = lexemes ([] ++ w) [] := lexemes_append h.chars
  rw [List.append_nil] at happend
  simp [happend, lexemes, h.ne_nil]

theorem lexemes_word_blank (h : IsWord w) :
    lexemes [] (w ++ ' ' :: rest) = .word (String.ofList w) :: lexemes [] rest := by
  rw [lexemes_append h.chars, lexemes, if_neg (by decide)]
  simp [h.ne_nil]

theorem lexemes_word_mark (h : IsWord w) (hc : isWordChar c = false) (hb : c ≠ ' ') :
    lexemes [] (w ++ c :: rest) = .word (String.ofList w) :: .mark c :: lexemes [] rest := by
  rw [lexemes_append h.chars, lexemes, if_neg (by simp [hc])]
  simp [h.ne_nil, hb]

theorem lexemes_blank : lexemes [] (' ' :: rest) = lexemes [] rest := rfl

theorem lexemes_mark (hc : isWordChar c = false) (hb : c ≠ ' ') :
    lexemes [] (c :: rest) = .mark c :: lexemes [] rest := by
  rw [lexemes, if_neg (by simp [hc])]
  simp [hb]

/-! ## Names and placeholders -/

def isPlain (s : String) : Bool :=
  match s.toList with
  | [] => false
  | c :: cs => (c.isAlpha || c == '_') && cs.all fun d => d.isAlphanum || d == '_'

def name? : Lexeme → Option String
  | .word s => if isPlain s then some s else none
  | .mark _ => none

def number? : Lexeme → Option Nat
  | .word s =>
      match s.toList with
      | '$' :: ds => if ds ≠ [] ∧ ds.all Char.isDigit then some (digitsValue ds) else none
      | _ => none
  | .mark _ => none

theorem isWord_of_isPlain {s : String} (h : isPlain s = true) : IsWord s.toList := by
  unfold isPlain at h
  cases hs : s.toList with
  | nil => simp [hs] at h
  | cons c cs =>
      simp only [hs, Bool.and_eq_true, List.all_eq_true] at h
      refine ⟨by simp, List.forall_mem_cons.2 ⟨?_, fun d hd => ?_⟩⟩
      · have hc := h.1
        simp only [isWordChar, Char.isAlphanum]
        grind
      · simp only [isWordChar, h.2 d hd, Bool.true_or]

theorem name?_of_isPlain {s : String} (h : isPlain s = true) : name? (.word s) = some s := by
  simp [name?, h]

theorem isWord_placeholderChars (n : Nat) : IsWord (Statement.placeholderChars n) := by
  refine ⟨by simp [Statement.placeholderChars], List.forall_mem_cons.2 ⟨by decide, fun d hd => ?_⟩⟩
  simp [isWordChar, Char.isAlphanum, isDigit_of_mem_natDigits hd]

theorem number?_placeholderChars (n : Nat) :
    number? (.word (String.ofList (Statement.placeholderChars n))) = some n := by
  have hdigits : (natDigits n).all Char.isDigit = true :=
    List.all_eq_true.2 fun _ => isDigit_of_mem_natDigits
  simp [number?, Statement.placeholderChars, natDigits_ne_nil, hdigits, digitsValue_natDigits]

/-! ## Lists -/

variable {α : Type}

/-- Reads items between commas up to a closing parenthesis, with what follows it. -/
def readList (item? : Lexeme → Option α) : List Lexeme → Option (List α × List Lexeme)
  | a :: sep :: rest =>
      if sep = .mark ',' then do
        let a ← item? a
        let (as, rest) ← readList item? rest
        some (a :: as, rest)
      else if sep = .mark ')' then (item? a).map fun a => ([a], rest)
      else none
  | _ => none

theorem readList_commaChars (item? : Lexeme → Option α) (chars : α → List Char) (items : List α)
    (hitems : ∀ a ∈ items, IsWord (chars a) ∧ item? (.word (String.ofList (chars a))) = some a)
    (hne : items ≠ []) (rest : List Char) :
    readList item? (lexemes [] (Statement.commaChars (items.map chars) ++ ')' :: rest))
      = some (items, lexemes [] rest) := by
  induction items with
  | nil => exact absurd rfl hne
  | cons a as ih =>
      obtain ⟨⟨hword, hitem⟩, has⟩ := List.forall_mem_cons.1 hitems
      cases as with
      | nil =>
          rw [List.map_singleton, Statement.commaChars, lexemes_word_mark hword (by decide) (by decide)]
          simp [readList, hitem]
      | cons b bs =>
          have hrest := ih has (by simp)
          simp only [List.map_cons] at hrest
          simp only [List.map_cons, Statement.commaChars, List.append_assoc, List.cons_append]
          rw [lexemes_word_mark hword (by decide) (by decide), lexemes_blank]
          simp [readList, hitem, hrest]

/-- Reads assignments between commas up to the condition, with what follows its keyword. -/
def readAssignments : List Lexeme → Option (List (String × Nat) × List Lexeme)
  | c :: eq :: n :: sep :: rest =>
      if eq = .mark '=' then do
        let c ← name? c
        let n ← number? n
        if sep = .mark ',' then do
          let (as, rest) ← readAssignments rest
          some ((c, n) :: as, rest)
        else if sep = .word "WHERE" then some ([(c, n)], rest)
        else none
      else none
  | _ => none

theorem assignmentChars_append (c : String) (n : Nat) (rest : List Char) :
    Statement.assignmentChars c n ++ rest
      = c.toList ++ ' ' :: '=' :: ' ' :: (Statement.placeholderChars n ++ rest) := by
  simp [Statement.assignmentChars]

theorem lexemes_assignmentChars {c : String} (hc : isPlain c = true) (n : Nat) (rest : List Char) :
    lexemes [] (Statement.assignmentChars c n ++ rest)
      = .word c :: .mark '=' :: lexemes [] (Statement.placeholderChars n ++ rest) := by
  rw [assignmentChars_append, lexemes_word_blank (isWord_of_isPlain hc),
    lexemes_mark (by decide) (by decide), lexemes_blank, String.ofList_toList]

theorem readAssignments_commaChars (assignments : List (String × Nat))
    (hplain : ∀ a ∈ assignments, isPlain a.1 = true) (hne : assignments ≠ []) (rest : List Char) :
    readAssignments (lexemes [] (Statement.commaChars
        (assignments.map fun a => Statement.assignmentChars a.1 a.2) ++ " WHERE ".toList ++ rest))
      = some (assignments, lexemes [] rest) := by
  induction assignments with
  | nil => exact absurd rfl hne
  | cons a as ih =>
      obtain ⟨ha, has⟩ := List.forall_mem_cons.1 hplain
      have hname := name?_of_isPlain ha
      have hnumber := number?_placeholderChars a.2
      cases as with
      | nil =>
          have hwhere : lexemes [] (Statement.placeholderChars a.2 ++ (" WHERE ".toList ++ rest))
              = .word (String.ofList (Statement.placeholderChars a.2)) :: .word "WHERE" :: lexemes [] rest :=
            lexemes_word_blank (isWord_placeholderChars a.2)
          simp only [List.map_singleton, Statement.commaChars, List.append_assoc]
          rw [lexemes_assignmentChars ha, hwhere]
          simp [readAssignments, hname, hnumber]
      | cons b bs =>
          have hrest := ih has (by simp)
          simp only [List.map_cons, List.append_assoc] at hrest
          simp only [List.map_cons, Statement.commaChars, List.append_assoc, List.cons_append]
          rw [lexemes_assignmentChars ha,
            lexemes_word_mark (isWord_placeholderChars a.2) (by decide) (by decide), lexemes_blank]
          simp only [readAssignments, ↓reduceIte, hname, hnumber, hrest, Option.bind_eq_bind,
            Option.bind_some]

/-! ## Statements -/

def readInsert : List Lexeme → Option Sql
  | into :: table :: paren :: rest =>
      if into = .word "INTO" ∧ paren = .mark '(' then do
        let table ← name? table
        let (columns, rest) ← readList name? rest
        match rest with
        | values :: paren :: rest =>
            if values = .word "VALUES" ∧ paren = .mark '(' then do
              let (numbers, rest) ← readList number? rest
              if rest = [] then some (.insert table columns numbers) else none
            else none
        | _ => none
      else none
  | _ => none

def readUpdate : List Lexeme → Option Sql
  | table :: set :: rest =>
      if set = .word "SET" then do
        let table ← name? table
        let (assignments, rest) ← readAssignments rest
        match rest with
        | [k, eq, n] =>
            if eq = .mark '=' then do
              let k ← name? k
              let n ← number? n
              some (.update table assignments k n)
            else none
        | _ => none
      else none
  | _ => none

/-- Reads a text as an insert or an update. -/
def read? (text : String) : Option Sql :=
  match lexemes [] text.toList with
  | verb :: rest =>
      if verb = .word "INSERT" then readInsert rest
      else if verb = .word "UPDATE" then readUpdate rest
      else none
  | _ => none

theorem lexemes_insertChars {table : String} {columns : List String} (ht : isPlain table = true) :
    lexemes [] (Statement.insertChars table columns) = .word "INSERT" :: .word "INTO" :: .word table
      :: .mark '(' :: lexemes [] (Statement.commaChars (columns.map String.toList) ++ ')' :: (" VALUES (".toList
        ++ (Statement.commaChars (Statement.placeholders columns.length) ++ [')']))) := by
  have hinto : ∀ rest, lexemes [] ("INSERT INTO ".toList ++ rest)
      = .word "INSERT" :: .word "INTO" :: lexemes [] rest := fun _ => rfl
  have hopen : ∀ rest, " (".toList ++ rest = ' ' :: '(' :: rest := fun _ => rfl
  have hclose : ∀ rest, ") VALUES (".toList ++ rest = ')' :: (" VALUES (".toList ++ rest) := fun _ => rfl
  unfold Statement.insertChars
  simp only [List.append_assoc]
  rw [hinto, hopen, hclose, lexemes_word_blank (isWord_of_isPlain ht), lexemes_mark (by decide) (by decide),
    String.ofList_toList]

theorem read?_insertChars {table : String} {columns : List String} (ht : isPlain table = true)
    (hc : ∀ c ∈ columns, isPlain c = true) (hne : columns ≠ []) :
    read? (String.ofList (Statement.insertChars table columns))
      = some (.insert table columns ((List.range columns.length).map (· + 1))) := by
  have hnames := readList_commaChars name? String.toList columns
    (fun c h => ⟨isWord_of_isPlain (hc c h), by rw [String.ofList_toList, name?_of_isPlain (hc c h)]⟩) hne
  have hvalues : ∀ rest, lexemes [] (" VALUES (".toList ++ rest)
      = .word "VALUES" :: .mark '(' :: lexemes [] rest := fun _ => rfl
  have hplaceholders : Statement.placeholders columns.length
      = ((List.range columns.length).map (· + 1)).map Statement.placeholderChars := by
    simp [Statement.placeholders]
  have hnumbers := readList_commaChars number? Statement.placeholderChars
    ((List.range columns.length).map (· + 1))
    (fun n _ => ⟨isWord_placeholderChars n, number?_placeholderChars n⟩) (by simpa using hne) []
  rw [read?, String.toList_ofList, lexemes_insertChars ht, hplaceholders]
  simp only [↓reduceIte, readInsert, and_self, name?_of_isPlain ht, hnames, hvalues, hnumbers,
    Option.bind_eq_bind, Option.bind_some]
  rfl

theorem lexemes_updateChars {table keyColumn : String} {columns : List String} (ht : isPlain table = true) :
    lexemes [] (Statement.updateChars table keyColumn columns) = .word "UPDATE" :: .word table :: .word "SET"
      :: lexemes [] (Statement.commaChars (columns.mapIdx fun i c => Statement.assignmentChars c (i + 1))
        ++ " WHERE ".toList ++ Statement.assignmentChars keyColumn (columns.length + 1)) := by
  have hupdate : ∀ rest, lexemes [] ("UPDATE ".toList ++ rest) = .word "UPDATE" :: lexemes [] rest :=
    fun _ => rfl
  have hblank : ∀ rest, " SET ".toList ++ rest = ' ' :: ("SET ".toList ++ rest) := fun _ => rfl
  have hset : ∀ rest, lexemes [] ("SET ".toList ++ rest) = .word "SET" :: lexemes [] rest := fun _ => rfl
  unfold Statement.updateChars
  simp only [List.append_assoc]
  rw [hupdate, hblank, lexemes_word_blank (isWord_of_isPlain ht), hset, String.ofList_toList]

theorem read?_updateChars {table keyColumn : String} {columns : List String} (ht : isPlain table = true)
    (hk : isPlain keyColumn = true) (hc : ∀ c ∈ columns, isPlain c = true) (hne : columns ≠ []) :
    read? (String.ofList (Statement.updateChars table keyColumn columns))
      = some (.update table (columns.mapIdx fun i c => (c, i + 1)) keyColumn (columns.length + 1)) := by
  have hplain : ∀ a ∈ columns.mapIdx fun i c => (c, i + 1), isPlain a.1 = true := by
    intro a ha
    obtain ⟨i, hi, rfl⟩ := List.mem_mapIdx.1 ha
    exact hc _ (List.getElem_mem hi)
  have hassignments := readAssignments_commaChars _ hplain (by simpa using hne)
  have hmap : (columns.mapIdx fun i c => (c, i + 1)).map (fun a => Statement.assignmentChars a.1 a.2)
      = columns.mapIdx fun i c => Statement.assignmentChars c (i + 1) := by
    simp [List.mapIdx_eq_zipIdx_map]
  have hcondition : lexemes [] (Statement.assignmentChars keyColumn (columns.length + 1)) = [.word keyColumn,
      .mark '=', .word (String.ofList (Statement.placeholderChars (columns.length + 1)))] := by
    have happend := lexemes_assignmentChars hk (columns.length + 1) []
    rwa [List.append_nil, List.append_nil, lexemes_word (isWord_placeholderChars _)] at happend
  rw [hmap] at hassignments
  rw [read?, String.toList_ofList, lexemes_updateChars ht]
  have hverb : Lexeme.word "UPDATE" ≠ .word "INSERT" := by decide
  simp only [hverb, ↓reduceIte, readUpdate, name?_of_isPlain ht, hassignments, hcondition,
    name?_of_isPlain hk, number?_placeholderChars, Option.bind_eq_bind, Option.bind_some]

end Sql

end Assortment.Storage
