import RouteCatalog.Proofs.PathParams

/-! Call chains read as property accesses. A segment in quotes stands in the chain as it is, so that
its text can end the literal and go on with links of its own. The links are told apart again exactly
if no quoted segment holds a character that a literal reads as something else, and no parameter holds
a bracket. -/

namespace RouteCatalog.Route

open TypeExpr Text

/-- What a reader of call chains knows about their language. An escape sequence stands for one
character of a literal or for none, and holds a quote only if it is an escaped quote. -/
structure ChainSyntax where
  isName : List Char → Bool
  escape? : List Char → Option (Option Char × List Char)
  escape?_cases : ∀ {cs rest : List Char} {c : Option Char}, escape? cs = some (c, rest) →
    ∃ used, used ≠ [] ∧ cs = used ++ rest ∧ ('"' ∈ used → used = ['"'] ∧ c = some '"')

/-- A character of a literal that is neither its end nor an escape nor the end of a line. -/
def standsForItself (c : Char) : Bool := c != '"' && c != '\\' && c != '\n' && c != '\r'

def namedSegments (path : String) : List (List Char) := (segments path).filter (!·.isEmpty)

inductive IsLink : List Char → List Char → Prop where
  | parameter (name : List Char) : IsLink (':' :: name) ("[params.".toList ++ name ++ [']'])
  | property {segment : List Char} : isIdentifier segment = true → IsLink segment ('.' :: segment)
  | quoted {segment : List Char} : segment.head? ≠ some ':' → isIdentifier segment = false →
      IsLink segment ("[\"".toList ++ segment ++ "\"]".toList)

theorem isLink_link (segment : List Char) : IsLink segment (link segment) := by
  unfold link
  split
  · exact .parameter _
  · rename_i hcolon
    split_ifs with hidentifier
    · exact .property hidentifier
    · apply IsLink.quoted
      · intro hhead
        obtain ⟨name, rfl⟩ := List.head?_eq_some_iff.mp hhead
        exact hcolon name rfl
      · simpa using hidentifier

namespace ChainSyntax

variable (syn : ChainSyntax) {cs raw body rest rest' segment : List Char}

section Reading

theorem escape?_shorter {c : Option Char} (h : syn.escape? cs = some (c, rest)) :
    rest.length < cs.length := by
  obtain ⟨used, hne, rfl, -⟩ := syn.escape?_cases h
  have hpos := List.length_pos_of_ne_nil hne
  rw [List.length_append]
  omega

def readLiteral (cs : List Char) : Option (List Char × List Char) :=
  match cs with
  | [] => none
  | c :: cs =>
    if c = '"' then some ([], cs)
    else if c = '\\' then
      match _h : syn.escape? cs with
      | none => none
      | some (d, rest) => (readLiteral rest).map fun (body, rest) => (d.toList ++ body, rest)
    else if standsForItself c then (readLiteral cs).map fun (body, rest) => (c :: body, rest)
    else none
termination_by cs.length
decreasing_by
  · have := syn.escape?_shorter _h
    simp only [List.length_cons]
    omega
  · simp

/-- A text between quotes spells the characters that a literal reads it as. -/
inductive Spells : List Char → List Char → Prop where
  | nil : Spells [] []
  | char {c : Char} {raw body : List Char} : standsForItself c = true → Spells raw body →
      Spells (c :: raw) (c :: body)
  | escape {used raw body : List Char} {c : Option Char} : used ≠ [] →
      ('"' ∈ used → used = ['"'] ∧ c = some '"') → Spells raw body →
      Spells ('\\' :: used ++ raw) (c.toList ++ body)

theorem spells_of_readLiteral (h : syn.readLiteral cs = some (body, rest)) :
    ∃ raw, cs = raw ++ '"' :: rest ∧ Spells raw body := by
  induction cs using readLiteral.induct syn generalizing body with
  | case1 => simp [readLiteral] at h
  | case2 cs =>
    simp only [readLiteral, if_true, Option.some.injEq, Prod.mk.injEq] at h
    obtain ⟨rfl, rfl⟩ := h
    exact ⟨[], rfl, .nil⟩
  | case3 cs hnone hquote =>
    unfold readLiteral at h
    rw [if_neg hquote, if_pos rfl] at h
    split at h
    · cases h
    · rename_i hsome
      rw [hnone] at hsome
      cases hsome
  | case4 cs d rest' hsome hquote ih =>
    unfold readLiteral at h
    rw [if_neg hquote, if_pos rfl] at h
    split at h
    · cases h
    · rename_i d' rest'' hsome'
      rw [hsome] at hsome'
      cases hsome'
      obtain ⟨⟨body', rest''⟩, hread, heq⟩ := Option.map_eq_some_iff.mp h
      cases heq
      obtain ⟨raw, rfl, hspells⟩ := ih hread
      obtain ⟨used, hne, rfl, hused⟩ := syn.escape?_cases hsome
      exact ⟨'\\' :: used ++ raw, by simp, .escape hne hused hspells⟩
  | case5 c cs hquote hescape hplain ih =>
    unfold readLiteral at h
    rw [if_neg hquote, if_neg hescape, if_pos hplain] at h
    obtain ⟨⟨body', rest'⟩, hread, heq⟩ := Option.map_eq_some_iff.mp h
    cases heq
    obtain ⟨raw, rfl, hspells⟩ := ih hread
    exact ⟨c :: raw, rfl, .char hplain hspells⟩
  | case6 c cs hquote hescape hplain =>
    unfold readLiteral at h
    simp [hquote, hescape, hplain] at h

/-- Every quote in a text between quotes is escaped, so that it comes out further to the front. -/
theorem Spells.quote_moves {before after : List Char} (h : Spells raw body)
    (hraw : raw = before ++ '"' :: after) :
    ∃ before' after', body = before' ++ '"' :: after' ∧ before'.length < before.length := by
  induction h generalizing before with
  | nil => simp at hraw
  | @char c raw body hc _ ih =>
    cases before with
    | nil =>
      cases hraw
      simp [standsForItself] at hc
    | cons d before =>
      obtain ⟨rfl, hrest⟩ := List.cons.inj hraw
      obtain ⟨before', after', rfl, hlt⟩ := ih hrest
      exact ⟨c :: before', after', rfl, by simpa using hlt⟩
  | @escape used raw body c hne hused _ ih =>
    cases before with
    | nil => cases hraw
    | cons d before =>
      have hraw' : used ++ raw = before ++ '"' :: after := (List.cons.inj hraw).2
      rcases List.append_eq_append_iff.mp hraw' with ⟨middle, rfl, hmiddle⟩ | ⟨middle, rfl, hmiddle⟩
      · -- The quote comes behind the escape sequence.
        obtain ⟨before', after', rfl, hlt⟩ := ih hmiddle
        refine ⟨c.toList ++ before', after', by simp, ?_⟩
        have hpos := List.length_pos_of_ne_nil hne
        have hone : c.toList.length ≤ 1 := by cases c <;> simp
        simp only [List.length_append, List.length_cons]
        omega
      · cases middle with
        | nil =>
          have hfirst : raw = [] ++ '"' :: after := by simpa using hmiddle.symm
          obtain ⟨before', after', rfl, hlt⟩ := ih hfirst
          exact (Nat.not_lt_zero _ hlt).elim
        | cons e middle =>
          obtain rfl : '"' = e := (List.cons.inj hmiddle).1
          obtain ⟨-, rfl⟩ := hused (by simp)
          exact ⟨[], body, rfl, by simp⟩

theorem Spells.length_le (h : Spells raw body) : body.length ≤ raw.length := by
  induction h with
  | nil => exact Nat.le_refl _
  | char _ _ ih => simpa using ih
  | @escape used raw body c hne _ _ ih =>
    have hone : c.toList.length ≤ 1 := by cases c <;> simp
    simp only [List.length_append, List.length_cons]
    omega

/-- Only a text without escape sequences spells as many characters as it has. -/
theorem Spells.standsForItself_of_length_eq (h : Spells raw body)
    (hlength : raw.length = body.length) : ∀ c ∈ raw, standsForItself c = true := by
  induction h with
  | nil => simp
  | char hc _ ih =>
    refine List.forall_mem_cons.mpr ⟨hc, ih ?_⟩
    simpa using hlength
  | @escape used raw body c hne _ hspells ih =>
    have hle := hspells.length_le
    have hpos := List.length_pos_of_ne_nil hne
    have hone : c.toList.length ≤ 1 := by cases c <;> simp
    simp only [List.length_append, List.length_cons] at hlength
    omega

/-- A text that goes on with a quote does not spell its own beginning: by `quote_moves` each quote
in it would need another one before it. -/
theorem Spells.not_prefix_quote {text after : List Char} (h : Spells raw text)
    (hraw : raw = text ++ '"' :: after) : False := by
  have hnone (n : Nat) : ∀ before after', before.length = n → n ≤ text.length →
      raw ≠ before ++ '"' :: after' := by
    induction n using Nat.strong_induction_on with
    | _ n ih =>
      intro before after' hlength hle heq
      obtain ⟨before', rest, htext, hlt⟩ := h.quote_moves heq
      apply ih before'.length (by omega) before' (rest ++ '"' :: after) rfl
      · rw [htext, List.length_append]
        omega
      · rw [hraw, htext]
        simp
  exact hnone text.length text after rfl (Nat.le_refl _) hraw

theorem readLiteral_of_plain {text after : List Char}
    (hplain : ∀ c ∈ text, standsForItself c = true) :
    syn.readLiteral (text ++ '"' :: after) = some (text, after) := by
  induction text with
  | nil => simp [readLiteral]
  | cons c text ih =>
    obtain ⟨hc, htext⟩ := List.forall_mem_cons.mp hplain
    have hquote : c ≠ '"' := by
      rintro rfl
      simp [standsForItself] at hc
    have hescape : c ≠ '\\' := by
      rintro rfl
      simp [standsForItself] at hc
    rw [List.cons_append, readLiteral, if_neg hquote, if_neg hescape, if_pos hc, ih htext]
    rfl

/-- A literal that reads a text as itself ends where the text ends and holds no escape. -/
theorem plain_of_readLiteral {text after : List Char}
    (h : syn.readLiteral (text ++ '"' :: after) = some (text, rest)) :
    ∀ c ∈ text, standsForItself c = true := by
  obtain ⟨raw, hraw, hspells⟩ := syn.spells_of_readLiteral h
  have hle := hspells.length_le
  rcases List.append_eq_append_iff.mp hraw with ⟨middle, rfl, hmiddle⟩ | ⟨middle, htext, -⟩
  · cases middle with
    | nil =>
      rw [List.append_nil] at hspells
      exact hspells.standsForItself_of_length_eq rfl
    | cons e middle =>
      obtain rfl : '"' = e := (List.cons.inj hmiddle).1
      exact (hspells.not_prefix_quote rfl).elim
  · have hlength := congrArg List.length htext
    rw [List.length_append] at hlength
    obtain rfl : middle = [] := List.length_eq_zero_iff.mp (by omega)
    rw [List.append_nil] at htext
    subst htext
    exact hspells.standsForItself_of_length_eq rfl

/-- Reads one link: a property behind a dot, or in brackets a literal or a name that is looked up
among the parameters. -/
def readLink (cs : List Char) : Option (List Char × List Char) :=
  match cs with
  | '.' :: cs =>
    if isIdentifier (cs.takeWhile isIdentifierChar) then
      some (cs.takeWhile isIdentifierChar, cs.dropWhile isIdentifierChar)
    else none
  | '[' :: '"' :: cs =>
    (syn.readLiteral cs).bind fun (body, rest) => (after? [']'] rest).map fun rest => (body, rest)
  | cs =>
    (after? "[params.".toList cs).bind fun cs =>
      if syn.isName (cs.takeWhile (· != ']')) then
        (after? [']'] (cs.dropWhile (· != ']'))).map fun rest =>
          (':' :: cs.takeWhile (· != ']'), rest)
      else none

theorem readLink_shorter (h : syn.readLink cs = some (segment, rest)) :
    rest.length < cs.length := by
  unfold readLink at h
  split at h
  · split_ifs at h
    obtain ⟨-, rfl⟩ := Prod.mk.inj (Option.some.inj h)
    rw [List.length_cons]
    exact Nat.lt_succ_of_le (List.length_dropWhile_le _ _)
  · obtain ⟨⟨body, rest'⟩, hread, h⟩ := Option.bind_eq_some_iff.mp h
    obtain ⟨rest'', hafter, heq⟩ := Option.map_eq_some_iff.mp h
    cases heq
    obtain ⟨raw, rfl, -⟩ := syn.spells_of_readLiteral hread
    rw [after?_eq_some_iff.mp hafter]
    simp only [List.length_cons, List.length_append, List.length_nil]
    omega
  · obtain ⟨body, hbody, h⟩ := Option.bind_eq_some_iff.mp h
    split_ifs at h
    obtain ⟨rest', hafter, heq⟩ := Option.map_eq_some_iff.mp h
    cases heq
    have hle := List.length_dropWhile_le (· != ']') body
    rw [after?_eq_some_iff.mp hafter] at hle
    rw [after?_eq_some_iff.mp hbody]
    simp only [List.length_append, List.length_cons, List.length_nil] at hle ⊢
    omega

def readLinks (cs : List Char) : Option (List (List Char)) :=
  if cs = [] then some []
  else
    match _h : syn.readLink cs with
    | none => none
    | some (segment, rest) => (readLinks rest).map (segment :: ·)
termination_by cs.length
decreasing_by exact syn.readLink_shorter _h

def readChain (chain : String) : Option (List (List Char)) :=
  (after? "client".toList chain.toList).bind syn.readLinks

end Reading

/-- A segment is legible if its link cannot be taken for anything else: the name of a parameter ends
at the bracket, and every other character stands for itself. -/
def IsLegible : List Char → Prop
  | ':' :: name => ']' ∉ name ∧ syn.isName name = true
  | segment => ∀ c ∈ segment, standsForItself c = true

section Links

theorem standsForItself_of_isIdentifierChar {c : Char} (h : isIdentifierChar c = true) :
    standsForItself c = true := by
  have hnot {d : Char} (hd : isIdentifierChar d = false) : c ≠ d := by
    rintro rfl
    rw [h] at hd
    cases hd
  simp [standsForItself, hnot (by decide : isIdentifierChar '"' = false),
    hnot (by decide : isIdentifierChar '\\' = false),
    hnot (by decide : isIdentifierChar '\n' = false),
    hnot (by decide : isIdentifierChar '\r' = false)]

theorem isIdentifierChar_of_mem {c : Char} (h : isIdentifier segment = true) (hc : c ∈ segment) :
    isIdentifierChar c = true := by
  cases segment with
  | nil => cases hc
  | cons d segment =>
    simp only [isIdentifier, Bool.and_eq_true, List.all_eq_true] at h
    rcases List.mem_cons.mp hc with rfl | hc
    · simp [isIdentifierChar, h.1]
    · exact h.2 c hc

theorem isLegible_of_head? (hcolon : segment.head? ≠ some ':') :
    syn.IsLegible segment ↔ ∀ c ∈ segment, standsForItself c = true := by
  unfold IsLegible
  split
  · exact (hcolon rfl).elim
  · rfl

theorem readLink_property {name : List Char} (hname : isIdentifier name = true)
    (hbehind : ∀ c ∈ rest.head?, isIdentifierChar c = false) :
    syn.readLink ('.' :: name ++ rest) = some (name, rest) := by
  have hall : ∀ c ∈ name, isIdentifierChar c = true := fun c => isIdentifierChar_of_mem hname
  have hrest : rest.takeWhile isIdentifierChar = [] ∧ rest.dropWhile isIdentifierChar = rest := by
    cases rest with
    | nil => simp
    | cons c rest => simp [hbehind c rfl]
  have htake : (name ++ rest).takeWhile isIdentifierChar = name := by
    rw [List.takeWhile_append_of_pos hall, hrest.1, List.append_nil]
  have hdrop : (name ++ rest).dropWhile isIdentifierChar = rest := by
    rw [List.dropWhile_append_of_pos hall, hrest.2]
  rw [List.cons_append, readLink, htake, hdrop, if_pos hname]

theorem readLink_quoted (text : List Char) :
    syn.readLink ("[\"".toList ++ text ++ "\"]".toList ++ rest) =
      (syn.readLiteral (text ++ '"' :: ']' :: rest)).bind fun (body, rest) =>
        (after? [']'] rest).map fun rest => (body, rest) := by
  have hchars : "[\"".toList ++ text ++ "\"]".toList ++ rest =
      '[' :: '"' :: (text ++ '"' :: ']' :: rest) := by simp
  rw [hchars, readLink]

theorem readLink_parameter (name : List Char) :
    syn.readLink ("[params.".toList ++ name ++ [']'] ++ rest) =
      if syn.isName ((name ++ ']' :: rest).takeWhile (· != ']')) then
        (after? [']'] ((name ++ ']' :: rest).dropWhile (· != ']'))).map fun rest' =>
          (':' :: (name ++ ']' :: rest).takeWhile (· != ']'), rest')
      else none := by
  have hchars : "[params.".toList ++ name ++ [']'] ++ rest =
      '[' :: 'p' :: ("arams.".toList ++ (name ++ ']' :: rest)) := by simp
  have hafter : after? "[params.".toList ('[' :: 'p' :: ("arams.".toList ++ (name ++ ']' :: rest))) =
      some (name ++ ']' :: rest) := after?_eq_some_iff.mpr rfl
  rw [hchars, readLink, hafter]
  · rfl
  · simp
  · simp

/-- A link whose segment is legible is read back; behind it begins another link or nothing. -/
theorem readLink_of_isLegible {text : List Char} (hlink : IsLink segment text)
    (hbehind : ∀ c ∈ rest.head?, isIdentifierChar c = false) (hlegible : syn.IsLegible segment) :
    syn.readLink (text ++ rest) = some (segment, rest) := by
  cases hlink with
  | parameter name =>
    have hall : ∀ c ∈ name, (c != ']') = true := by
      intro c hc
      exact bne_iff_ne.mpr fun heq => hlegible.1 (heq ▸ hc)
    have htake : (name ++ ']' :: rest).takeWhile (· != ']') = name := by
      rw [List.takeWhile_append_of_pos hall]
      simp
    have hdrop : (name ++ ']' :: rest).dropWhile (· != ']') = ']' :: rest := by
      rw [List.dropWhile_append_of_pos hall]
      simp
    rw [readLink_parameter, htake, hdrop, if_pos hlegible.2]
    simp [after?]
  | property hidentifier => exact syn.readLink_property hidentifier hbehind
  | quoted hcolon _ =>
    have hplain := (syn.isLegible_of_head? hcolon).mp hlegible
    rw [readLink_quoted, syn.readLiteral_of_plain hplain]
    simp [after?]

theorem isLegible_of_readLink {text : List Char} (hlink : IsLink segment text)
    (h : syn.readLink (text ++ rest) = some (segment, rest')) : syn.IsLegible segment := by
  cases hlink with
  | parameter name =>
    rw [readLink_parameter] at h
    split_ifs at h with hname
    obtain ⟨_, -, heq⟩ := Option.map_eq_some_iff.mp h
    have htake : (name ++ ']' :: rest).takeWhile (· != ']') = name :=
      (List.cons.inj (Prod.mk.inj heq).1).2
    rw [htake] at hname
    refine ⟨fun hmem => ?_, hname⟩
    rw [← htake] at hmem
    simpa using List.mem_takeWhile_imp hmem
  | @property segment hidentifier =>
    have hcolon : segment.head? ≠ some ':' := by
      intro hhead
      obtain ⟨name, rfl⟩ := List.head?_eq_some_iff.mp hhead
      exact absurd hidentifier (by simp [isIdentifier, isIdentifierStart, isAsciiLetter])
    apply (syn.isLegible_of_head? hcolon).mpr
    intro c hc
    exact standsForItself_of_isIdentifierChar (isIdentifierChar_of_mem hidentifier hc)
  | quoted hcolon _ =>
    rw [readLink_quoted] at h
    obtain ⟨⟨body, behind⟩, hread, h⟩ := Option.bind_eq_some_iff.mp h
    obtain ⟨_, -, heq⟩ := Option.map_eq_some_iff.mp h
    cases heq
    exact (syn.isLegible_of_head? hcolon).mpr (syn.plain_of_readLiteral hread)

theorem head?_link (segment : List Char) (rest : List Char) :
    ∀ c ∈ (link segment ++ rest).head?, isIdentifierChar c = false := by
  have hlink := isLink_link segment
  intro c hc
  generalize link segment = text at hlink hc
  cases hlink <;> cases hc <;> decide

/-- Links are read back one after the other, up to the first whose segment is not legible. -/
theorem readLinks_iff (given : List (List Char)) :
    syn.readLinks (given.map link).flatten = some given ↔
      ∀ segment ∈ given, syn.IsLegible segment := by
  induction given with
  | nil => simp [readLinks]
  | cons segment given ih =>
    have hbehind : ∀ c ∈ (given.map link).flatten.head?, isIdentifierChar c = false := by
      cases given with
      | nil => simp
      | cons next given => exact head?_link next _
    have hne : link segment ++ (given.map link).flatten ≠ [] := by
      intro hnil
      have hlink := isLink_link segment
      rw [(List.append_eq_nil_iff.mp hnil).1] at hlink
      cases hlink
    rw [List.map_cons, List.flatten_cons, readLinks, if_neg hne, List.forall_mem_cons, ← ih]
    constructor
    · intro h
      split at h
      · cases h
      · rename_i segment' rest' hread
        obtain ⟨given', hgiven, heq⟩ := Option.map_eq_some_iff.mp h
        cases heq
        have hlegible := syn.isLegible_of_readLink (isLink_link segment) hread
        rw [syn.readLink_of_isLegible (isLink_link segment) hbehind hlegible] at hread
        cases hread
        exact ⟨hlegible, hgiven⟩
    · rintro ⟨hlegible, hgiven⟩
      split
      · rename_i hnone
        rw [syn.readLink_of_isLegible (isLink_link segment) hbehind hlegible] at hnone
        cases hnone
      · rename_i segment' rest' hread
        rw [syn.readLink_of_isLegible (isLink_link segment) hbehind hlegible] at hread
        cases hread
        rw [hgiven]
        rfl

theorem readChain_iff (path : String) :
    syn.readChain (clientChain path) = some (namedSegments path) ↔
      ∀ segment ∈ namedSegments path, syn.IsLegible segment := by
  have hchain : (clientChain path).toList =
      "client".toList ++ ((namedSegments path).map link).flatten := by
    simp [clientChain_eq_links, links, namedSegments]
  rw [readChain, after?_eq_some_iff.mpr hchain]
  exact syn.readLinks_iff (namedSegments path)

end Links

/-- What a character stands for behind a backslash: the end of a line for nothing, and most others
for themselves. Escapes by number are not read. -/
def escapedChar? (c : Char) : Option (Option Char) :=
  if c = 'n' then some (some '\n')
  else if c = 'r' then some (some '\r')
  else if c = 't' then some (some '\t')
  else if c = '\n' ∨ c = '\r' then some none
  else if c = 'x' ∨ c = 'u' ∨ ('0' ≤ c ∧ c ≤ '9') then none
  else some (some c)

/-- A reader that takes whatever stands before the bracket for the name of a parameter. -/
def lenient : ChainSyntax where
  isName _ := true
  escape?
    | [] => none
    | c :: cs => (escapedChar? c).map fun d => (d, cs)
  escape?_cases := by
    intro cs rest d h
    cases cs with
    | nil => cases h
    | cons c cs =>
      obtain ⟨d', hd, heq⟩ := Option.map_eq_some_iff.mp h
      cases heq
      refine ⟨[c], by simp, rfl, fun hmem => ?_⟩
      obtain rfl : '"' = c := List.mem_singleton.mp hmem
      exact ⟨rfl, (Option.some.inj hd).symm⟩

end ChainSyntax

/-- A chain has one link for every segment of its path that is not empty, and it is read back as
these segments exactly if all of them are legible. Paths whose segments are legible have the same
chain only if they have the same segments. -/
theorem chain_reads_back_iff (syn : ChainSyntax) (path : String) :
    clientChain path = "client" ++ String.ofList (links path).flatten ∧
      List.Forall₂ IsLink (namedSegments path) (links path) ∧
      (syn.readChain (clientChain path) = some (namedSegments path) ↔
        ∀ segment ∈ namedSegments path, syn.IsLegible segment) ∧
      ((∀ segment ∈ namedSegments path, syn.IsLegible segment) →
        ∀ other, (∀ segment ∈ namedSegments other, syn.IsLegible segment) →
          (clientChain path = clientChain other ↔ namedSegments path = namedSegments other)) := by
  refine ⟨clientChain_eq_links path, ?_, syn.readChain_iff path, ?_⟩
  · change List.Forall₂ IsLink (namedSegments path) ((namedSegments path).map link)
    rw [List.forall₂_map_right_iff, List.forall₂_same]
    intro segment _
    exact isLink_link segment
  · intro hpath other hother
    constructor
    · intro heq
      have hread := (syn.readChain_iff path).mpr hpath
      rw [heq, (syn.readChain_iff other).mpr hother] at hread
      exact (Option.some.inj hread).symm
    · intro heq
      rw [clientChain_eq_links, clientChain_eq_links, links, links, ← namedSegments,
        ← namedSegments, heq]

/-- A quote ends the literal early: the rest of the segment goes on as another link. -/
theorem quote_is_read_as_two_links :
    clientChain "/a-b\"][\"c-d" = "client[\"a-b\"][\"c-d\"]" ∧
      clientChain "/a-b/c-d" = clientChain "/a-b\"][\"c-d" ∧
      namedSegments "/a-b\"][\"c-d" = ["a-b\"][\"c-d".toList] ∧
      ChainSyntax.lenient.readChain (clientChain "/a-b\"][\"c-d") =
        some ["a-b".toList, "c-d".toList] ∧
      ChainSyntax.lenient.readChain (clientChain "/a-b\"][\"c-d") ≠
        some (namedSegments "/a-b\"][\"c-d") := by
  have hchain : clientChain "/a-b/c-d" = clientChain "/a-b\"][\"c-d" := by decide
  have hsegments : namedSegments "/a-b/c-d" = ["a-b".toList, "c-d".toList] := by decide
  have hcut : namedSegments "/a-b\"][\"c-d" = ["a-b\"][\"c-d".toList] := by decide
  have hread : ChainSyntax.lenient.readChain (clientChain "/a-b/c-d") =
      some ["a-b".toList, "c-d".toList] := by
    rw [← hsegments]
    apply (chain_reads_back_iff ChainSyntax.lenient "/a-b/c-d").2.2.1.mpr
    rw [hsegments]
    simp only [List.forall_mem_cons]
    refine ⟨?_, ?_, by simp⟩
    · exact (ChainSyntax.lenient.isLegible_of_head? (by decide)).mpr (by simp [standsForItself])
    · exact (ChainSyntax.lenient.isLegible_of_head? (by decide)).mpr (by simp [standsForItself])
  rw [hchain] at hread
  refine ⟨by decide, hchain, hcut, hread, ?_⟩
  rw [hread, hcut]
  decide

end RouteCatalog.Route
