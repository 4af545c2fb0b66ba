import ClassSchema.Proofs.Java.RenumberedRegistry
import Mathlib.Data.List.Nodup
import Mathlib.Data.List.Perm.Basic

/-!
# The order of the sources

Sources in another order put their declarations in another order: a registry is
renumbered.  Two neighbours that change places move their declarations as two
blocks, and every order is reached by such exchanges.  Names that are all
different are found in either order, since the number under which a name is
entered is its place in the list of all names.

## Main results

* `foldl_add_declarations`, `foldl_add_files`, `get?_foldl_add`: what is registered
  for some sources, and under which numbers.
* `renumbered_of_exchange`: two neighbours change places.
* `buildModel_renumbered`: sources in another order give the same model up to
  renumbering, and the same schemas.
-/

namespace ClassSchema.Java

/-! ## Qualified names -/

mutual

/-- The qualified names of a declaration and of the declarations in it. -/
def TypeDecl.qualifiedNames (parent : String) : TypeDecl → List String
  | ⟨_, name, _, _, _, _, types⟩ =>
      Dotted.qualify parent name ::
        TypeDecl.allQualifiedNames (Dotted.qualify parent name) types

/-- The qualified names of declarations and of the declarations in them. -/
def TypeDecl.allQualifiedNames (parent : String) : List TypeDecl → List String
  | [] => []
  | decl :: rest => decl.qualifiedNames parent ++ TypeDecl.allQualifiedNames parent rest

end

/-- The qualified names of all declarations in a source. -/
def SourceFile.qualifiedNames (source : SourceFile) : List String :=
  TypeDecl.allQualifiedNames source.package source.types

mutual

theorem register_names (file : Nat) (parent : String) (chain : List Nat) (number : Nat) :
    (decl : TypeDecl) →
      (register file parent chain number decl).map (·.entity.qualifiedName) =
        (decl.qualifiedNames parent).map .str
  | ⟨_, _, _, _, _, _, types⟩ => by
      simp only [register, TypeDecl.qualifiedNames, List.map_cons]
      rw [registerAll_names _ _ _ _ types]
      rfl

theorem registerAll_names (file : Nat) (parent : String) (chain : List Nat) (number : Nat) :
    (decls : List TypeDecl) →
      (registerAll file parent chain number decls).map (·.entity.qualifiedName) =
        (TypeDecl.allQualifiedNames parent decls).map .str
  | [] => rfl
  | decl :: rest => by
      simp only [registerAll, TypeDecl.allQualifiedNames, List.map_append]
      rw [register_names _ _ _ _ decl, registerAll_names _ _ _ _ rest]

end

/-- The number of declarations in a source. -/
def SourceFile.count (source : SourceFile) : Nat := TypeDecl.countAll source.types

theorem SourceFile.length_qualifiedNames (source : SourceFile) :
    source.qualifiedNames.length = source.count := by
  have hLength := congrArg List.length (registerAll_names 0 source.package [] 0 source.types)
  rw [List.length_map, List.length_map, registerAll_length] at hLength
  exact hLength.symm

/-! ## What is registered -/

/-- The number of declarations in sources. -/
def countSources : List SourceFile → Nat
  | [] => 0
  | source :: rest => source.count + countSources rest

/-- The declarations of sources, the first of them under a number and in a file. -/
def registeredFrom (file number : Nat) : List SourceFile → List Registered
  | [] => []
  | source :: rest =>
      registerAll file source.package [] number source.types
        ++ registeredFrom (file + 1) (number + source.count) rest

/-- The sources with the numbers of their declarations, the first of them under a number. -/
def filesFrom (number : Nat) : List SourceFile → List RegisteredFile
  | [] => []
  | source :: rest =>
      ⟨source, numbersFrom number source.types⟩ :: filesFrom (number + source.count) rest

theorem registeredFrom_length (file number : Nat) (sources : List SourceFile) :
    (registeredFrom file number sources).length = countSources sources := by
  induction sources generalizing file number with
  | nil => rfl
  | cons source rest ih =>
      simp only [registeredFrom, List.length_append, registerAll_length, ih, countSources,
        SourceFile.count]

theorem filesFrom_length (number : Nat) (sources : List SourceFile) :
    (filesFrom number sources).length = sources.length := by
  induction sources generalizing number with
  | nil => rfl
  | cons source rest ih => simp [filesFrom, ih]

theorem filesFrom_sources (number : Nat) (sources : List SourceFile) :
    (filesFrom number sources).map (·.source) = sources := by
  induction sources generalizing number with
  | nil => rfl
  | cons source rest ih => simp [filesFrom, ih]

theorem registeredFrom_append (file number : Nat) (front back : List SourceFile) :
    registeredFrom file number (front ++ back) =
      registeredFrom file number front
        ++ registeredFrom (file + front.length) (number + countSources front) back := by
  induction front generalizing file number with
  | nil => rfl
  | cons source rest ih =>
      simp only [List.cons_append, registeredFrom, ih, List.append_assoc, List.length_cons,
        countSources]
      congr 3 <;> omega

theorem filesFrom_append (number : Nat) (front back : List SourceFile) :
    filesFrom number (front ++ back) =
      filesFrom number front ++ filesFrom (number + countSources front) back := by
  induction front generalizing number with
  | nil => rfl
  | cons source rest ih =>
      simp only [List.cons_append, filesFrom, ih, countSources]
      congr 3
      omega

theorem foldl_add_declarations (registry : Registry) (sources : List SourceFile) :
    (sources.foldl Registry.add registry).declarations =
      registry.declarations ++
        registeredFrom registry.files.length registry.declarations.length sources := by
  induction sources generalizing registry with
  | nil => simp [registeredFrom]
  | cons source rest ih =>
      simp only [List.foldl_cons, ih, Registry.add, registeredFrom, List.length_append,
        registerAll_length, List.length_singleton, List.append_assoc, SourceFile.count]

theorem foldl_add_files (registry : Registry) (sources : List SourceFile) :
    (sources.foldl Registry.add registry).files =
      registry.files ++ filesFrom registry.declarations.length sources := by
  induction sources generalizing registry with
  | nil => simp [filesFrom]
  | cons source rest ih =>
      simp only [List.foldl_cons, ih, Registry.add, filesFrom, List.length_append,
        registerAll_length, List.append_assoc, SourceFile.count, List.cons_append,
        List.nil_append]

theorem foldl_add_includeStatic (registry : Registry) (sources : List SourceFile) :
    (sources.foldl Registry.add registry).includeStatic = registry.includeStatic := by
  induction sources generalizing registry with
  | nil => rfl
  | cons source rest ih => exact ih _

/-- Declarations with names of their own are entered under their places. -/
private theorem get?_foldl_enter {names : List String} (distinct : names.Nodup)
    {added : List Registered}
    (named : added.map (·.entity.qualifiedName) = names.map .str) (number : Nat)
    (byName : OrderedMap Nat) (name : String) :
    ((added.zipIdx number).foldl Registry.enter byName).get? name =
      if name ∈ names then some (number + names.idxOf name) else byName.get? name := by
  induction names generalizing added number byName with
  | nil =>
      obtain rfl := List.map_eq_nil_iff.mp named
      simp
  | cons first rest ih =>
      obtain ⟨hFirst, hRest⟩ := List.nodup_cons.mp distinct
      obtain ⟨registered, others, rfl, hName, hOthers⟩ := List.map_eq_cons_iff.mp named
      rw [List.zipIdx_cons, List.foldl_cons, ih hRest hOthers]
      have hEnter : Registry.enter byName (registered, number) = byName.put first number := by
        simp [Registry.enter, hName]
      rw [hEnter, OrderedMap.get?_put]
      by_cases hSame : first = name
      · subst hSame
        simp [hFirst]
      · by_cases hMem : name ∈ rest
        · simp only [hMem, List.mem_cons, or_true, if_true, List.idxOf_cons_ne rest hSame]
          congr 1
          omega
        · simp [hSame, hMem, Ne.symm hSame]

/-- **Names are found by their places.**  After sources whose names are all different, a name of
one of them has the number that is its place among the names, and other names are what they
were. -/
theorem get?_foldl_add {sources : List SourceFile}
    (distinct : (sources.flatMap (·.qualifiedNames)).Nodup) (registry : Registry)
    (name : String) :
    (sources.foldl Registry.add registry).byName.get? name =
      if name ∈ sources.flatMap (·.qualifiedNames) then
        some (registry.declarations.length +
          (sources.flatMap (·.qualifiedNames)).idxOf name)
      else registry.byName.get? name := by
  induction sources generalizing registry with
  | nil => simp
  | cons source rest ih =>
      rw [List.flatMap_cons] at distinct ⊢
      obtain ⟨hSource, hRest, hDisjoint⟩ := List.nodup_append.mp distinct
      have hAdded := get?_foldl_enter hSource
        (registerAll_names registry.files.length source.package [] registry.declarations.length
          source.types) registry.declarations.length registry.byName name
      have hLength : (registry.add source).declarations.length =
          registry.declarations.length + source.qualifiedNames.length := by
        rw [SourceFile.length_qualifiedNames]
        simp [Registry.add, registerAll_length, SourceFile.count]
      have hByName : (registry.add source).byName.get? name = _ := hAdded
      rw [List.foldl_cons, ih hRest, hByName, hLength]
      by_cases hMem : name ∈ source.qualifiedNames
      · have hNot : name ∉ rest.flatMap (·.qualifiedNames) :=
          fun hOther => hDisjoint name hMem name hOther rfl
        simp [hMem, hNot, List.idxOf_append_of_mem hMem]
      · by_cases hOther : name ∈ rest.flatMap (·.qualifiedNames)
        · simp only [hOther, List.mem_append, or_true, if_true,
            List.idxOf_append_of_notMem hMem]
          congr 1
          omega
        · simp [hMem, hOther]

/-! ## Other numbers -/

theorem TypeDecl.count_pos : (decl : TypeDecl) → 0 < decl.count
  | ⟨_, _, _, _, _, _, _⟩ => by simp [TypeDecl.count]

theorem numbersFrom_map {ρ : Nat → Nat} {number number' : Nat} {decls : List TypeDecl}
    (moved : ∀ i < TypeDecl.countAll decls, ρ (number + i) = number' + i) :
    (numbersFrom number decls).map ρ = numbersFrom number' decls := by
  induction decls generalizing number number' with
  | nil => rfl
  | cons decl rest ih =>
      have hCount : TypeDecl.countAll (decl :: rest) = decl.count + TypeDecl.countAll rest := rfl
      have hPositive := decl.count_pos
      have hFirst : ρ number = number' := moved 0 (by omega)
      have hRest : ∀ i < TypeDecl.countAll rest,
          ρ (number + decl.count + i) = number' + decl.count + i := by
        intro i hi
        rw [Nat.add_assoc, moved (decl.count + i) (by omega), Nat.add_assoc]
      rw [numbersFrom, List.map_cons, hFirst, ih hRest, numbersFrom]

mutual

/-- A declaration whose numbers are moved is registered under the numbers that they are moved
to. -/
theorem register_renumber {ρ φ : Nat → Nat} (file : Nat) (parent : String) (chain : List Nat)
    {number number' : Nat} :
    (decl : TypeDecl) → (∀ i < decl.count, ρ (number + i) = number' + i) →
      (register file parent chain number decl).map (·.renumber ρ φ) =
        register (φ file) parent (chain.map ρ) number' decl
  | ⟨kind, name, typeParams, modifiers, fields, enumConstants, types⟩, moved => by
      have hCount : TypeDecl.count ⟨kind, name, typeParams, modifiers, fields, enumConstants,
          types⟩ = TypeDecl.countAll types + 1 := rfl
      have hFirst : ρ number = number' := moved 0 (by omega)
      have hInside : ∀ i < TypeDecl.countAll types, ρ (number + 1 + i) = number' + 1 + i := by
        intro i hi
        rw [Nat.add_assoc, moved (1 + i) (by omega), Nat.add_assoc]
      simp only [register, List.map_cons]
      rw [registerAll_renumber file _ _ types hInside]
      simp only [Registered.renumber, numbersFrom_map hInside, List.map_append,
        List.map_singleton, hFirst]
      rfl

theorem registerAll_renumber {ρ φ : Nat → Nat} (file : Nat) (parent : String)
    (chain : List Nat) {number number' : Nat} :
    (decls : List TypeDecl) → (∀ i < TypeDecl.countAll decls, ρ (number + i) = number' + i) →
      (registerAll file parent chain number decls).map (·.renumber ρ φ) =
        registerAll (φ file) parent (chain.map ρ) number' decls
  | [], _ => rfl
  | decl :: rest, moved => by
      have hCount : TypeDecl.countAll (decl :: rest) = decl.count + TypeDecl.countAll rest := rfl
      have hRest : ∀ i < TypeDecl.countAll rest,
          ρ (number + decl.count + i) = number' + decl.count + i := by
        intro i hi
        rw [Nat.add_assoc, moved (decl.count + i) (by omega), Nat.add_assoc]
      simp only [registerAll, List.map_append]
      rw [register_renumber file parent chain decl fun i hi => moved i (by omega),
        registerAll_renumber file parent chain rest hRest]

end

/-- Sources whose files and declarations are moved are registered where they are moved to. -/
theorem registeredFrom_renumber {ρ φ : Nat → Nat} {file file' number number' : Nat}
    {sources : List SourceFile}
    (movedFile : ∀ i < sources.length, φ (file + i) = file' + i)
    (moved : ∀ i < countSources sources, ρ (number + i) = number' + i) :
    (registeredFrom file number sources).map (·.renumber ρ φ) =
      registeredFrom file' number' sources := by
  induction sources generalizing file file' number number' with
  | nil => rfl
  | cons source rest ih =>
      have hCount : countSources (source :: rest) = source.count + countSources rest := by
        simp [countSources]
      have hFile : φ file = file' := movedFile 0 (by simp)
      have hFiles : ∀ i < rest.length, φ (file + 1 + i) = file' + 1 + i := by
        intro i hi
        rw [Nat.add_assoc, movedFile (1 + i) (by rw [List.length_cons]; omega), Nat.add_assoc]
      have hRest : ∀ i < countSources rest,
          ρ (number + source.count + i) = number' + source.count + i := by
        intro i hi
        rw [Nat.add_assoc, moved (source.count + i) (by omega), Nat.add_assoc]
      have hSource : ∀ i < TypeDecl.countAll source.types, ρ (number + i) = number' + i := by
        intro i hi
        exact moved i (by rw [hCount, SourceFile.count]; omega)
      simp only [registeredFrom, List.map_append]
      rw [registerAll_renumber file source.package [] source.types hSource, ih hFiles hRest, hFile]
      rfl

theorem filesFrom_renumber {ρ : Nat → Nat} {number number' : Nat} {sources : List SourceFile}
    (moved : ∀ i < countSources sources, ρ (number + i) = number' + i) :
    (filesFrom number sources).map (·.renumber ρ) = filesFrom number' sources := by
  induction sources generalizing number number' with
  | nil => rfl
  | cons source rest ih =>
      have hCount : countSources (source :: rest) = source.count + countSources rest := by
        simp [countSources]
      have hRest : ∀ i < countSources rest,
          ρ (number + source.count + i) = number' + source.count + i := by
        intro i hi
        rw [Nat.add_assoc, moved (source.count + i) (by omega), Nat.add_assoc]
      have hSource : ∀ i < TypeDecl.countAll source.types, ρ (number + i) = number' + i := by
        intro i hi
        exact moved i (by rw [hCount, SourceFile.count]; omega)
      simp only [filesFrom, List.map_cons]
      rw [ih hRest, RegisteredFile.renumber, numbersFrom_map hSource]

/-! ## Neighbours that change places -/

/-- Behind the first `a` numbers, the next `b` change places with the `c` behind them. -/
def exchange (a b c : Nat) : Equiv.Perm Nat where
  toFun n := if n < a then n else if n < a + b then n + c else if n < a + b + c then n - b else n
  invFun n := if n < a then n else if n < a + c then n + b else if n < a + c + b then n - c else n
  left_inv n := by
    dsimp only
    split_ifs <;> omega
  right_inv n := by
    dsimp only
    split_ifs <;> omega

theorem exchange_apply (a b c n : Nat) :
    exchange a b c n =
      if n < a then n else if n < a + b then n + c else if n < a + b + c then n - b else n :=
  rfl

section Blocks

variable (a b c : Nat) {i : Nat}

theorem exchange_front (h : i < a) : exchange a b c (0 + i) = 0 + i := by
  rw [exchange_apply, if_pos (by omega)]

theorem exchange_first (h : i < b) : exchange a b c (a + i) = a + c + i := by
  rw [exchange_apply, if_neg (by omega), if_pos (by omega)]
  omega

theorem exchange_second (h : i < c) : exchange a b c (a + b + i) = a + i := by
  rw [exchange_apply, if_neg (by omega), if_neg (by omega), if_pos (by omega)]
  omega

theorem exchange_back : exchange a b c (a + b + c + i) = a + c + b + i := by
  rw [exchange_apply, if_neg (by omega), if_neg (by omega), if_neg (by omega)]
  omega

end Blocks

/-- What stands in a list whose middle parts have changed places. -/
theorem getElem?_exchange {α : Type} (front first second back : List α) (n : Nat) :
    (front ++ (second ++ (first ++ back)))[exchange front.length first.length second.length n]? =
      (front ++ (first ++ (second ++ back)))[n]? := by
  simp only [exchange_apply, List.getElem?_append]
  split_ifs <;> first | omega | (congr 1; omega) | rfl

/-- The same where the parts have changed as well. -/
private theorem getElem?_exchange_map {α β : Type} {f : α → β} {front first second back : List α}
    {front' first' second' back' : List β} (hFront : front.map f = front')
    (hFirst : first.map f = first') (hSecond : second.map f = second')
    (hBack : back.map f = back') {a b c : Nat} (ha : front.length = a) (hb : first.length = b)
    (hc : second.length = c) (n : Nat) :
    (front' ++ (second' ++ (first' ++ back')))[exchange a b c n]? =
      (front ++ (first ++ (second ++ back)))[n]?.map f := by
  subst hFront hFirst hSecond hBack ha hb hc
  rw [← List.map_append, ← List.map_append, ← List.map_append, List.getElem?_map,
    getElem?_exchange]

theorem countSources_singleton (source : SourceFile) :
    countSources [source] = source.count := by
  simp [countSources]

theorem length_flatMap_names (sources : List SourceFile) :
    (sources.flatMap (·.qualifiedNames)).length = countSources sources := by
  induction sources with
  | nil => rfl
  | cons source rest ih =>
      rw [List.flatMap_cons, List.length_append, SourceFile.length_qualifiedNames, ih,
        countSources]

/-- The declarations of sources with two neighbours among them. -/
private theorem registeredFrom_behind (front : List SourceFile) (first second : SourceFile)
    (back : List SourceFile) :
    registeredFrom 0 0 (front ++ first :: second :: back) =
      registeredFrom 0 0 front ++
        (registeredFrom front.length (countSources front) [first] ++
          (registeredFrom (front.length + 1) (countSources front + first.count) [second] ++
            registeredFrom (front.length + 1 + 1)
              (countSources front + first.count + second.count) back)) := by
  rw [registeredFrom_append]
  simp [registeredFrom]

private theorem filesFrom_behind (front : List SourceFile) (first second : SourceFile)
    (back : List SourceFile) :
    filesFrom 0 (front ++ first :: second :: back) =
      filesFrom 0 front ++
        (filesFrom (countSources front) [first] ++
          (filesFrom (countSources front + first.count) [second] ++
            filesFrom (countSources front + first.count + second.count) back)) := by
  rw [filesFrom_append]
  simp [filesFrom]

section Exchange

variable (front : List SourceFile) (first second : SourceFile) (back : List SourceFile)

/-- How the declarations move when two neighbours change places. -/
abbrev declarationExchange : Equiv.Perm Nat :=
  exchange (countSources front) first.count second.count

/-- How the files move when two neighbours change places. -/
abbrev fileExchange : Equiv.Perm Nat := exchange front.length 1 1

private theorem declarations_exchange (number : Nat) :
    (registeredFrom 0 0 (front ++ second :: first :: back))[
        declarationExchange front first second number]? =
      (registeredFrom 0 0 (front ++ first :: second :: back))[number]?.map
        (·.renumber (declarationExchange front first second) (fileExchange front)) := by
  rw [registeredFrom_behind, registeredFrom_behind]
  refine getElem?_exchange_map ?_ ?_ ?_ ?_ (registeredFrom_length _ _ _) ?_ ?_ number
  · exact registeredFrom_renumber (fun _ hi => exchange_front _ _ _ hi)
      (fun _ hi => exchange_front _ _ _ hi)
  · exact registeredFrom_renumber (fun _ hi => exchange_first _ _ _ hi)
      (fun _ hi => exchange_first _ _ _ (countSources_singleton first ▸ hi))
  · exact registeredFrom_renumber (fun _ hi => exchange_second _ _ _ hi)
      (fun _ hi => exchange_second _ _ _ (countSources_singleton second ▸ hi))
  · exact registeredFrom_renumber (fun _ _ => exchange_back _ _ _)
      (fun _ _ => exchange_back _ _ _)
  · rw [registeredFrom_length, countSources_singleton]
  · rw [registeredFrom_length, countSources_singleton]

/-- The parts of the list of files, each where the exchange has moved it. -/
private theorem filesFrom_exchange :
    (filesFrom 0 front).map (·.renumber (declarationExchange front first second)) =
        filesFrom 0 front ∧
      (filesFrom (countSources front) [first]).map
          (·.renumber (declarationExchange front first second)) =
        filesFrom (countSources front + second.count) [first] ∧
      (filesFrom (countSources front + first.count) [second]).map
          (·.renumber (declarationExchange front first second)) =
        filesFrom (countSources front) [second] ∧
      (filesFrom (countSources front + first.count + second.count) back).map
          (·.renumber (declarationExchange front first second)) =
        filesFrom (countSources front + second.count + first.count) back := by
  refine ⟨?_, ?_, ?_, ?_⟩
  · exact filesFrom_renumber fun _ hi => exchange_front _ _ _ hi
  · exact filesFrom_renumber fun _ hi =>
      exchange_first _ _ _ (countSources_singleton first ▸ hi)
  · exact filesFrom_renumber fun _ hi =>
      exchange_second _ _ _ (countSources_singleton second ▸ hi)
  · exact filesFrom_renumber fun _ _ => exchange_back _ _ _

private theorem files_exchange (number : Nat) :
    (filesFrom 0 (front ++ second :: first :: back))[fileExchange front number]? =
      (filesFrom 0 (front ++ first :: second :: back))[number]?.map
        (·.renumber (declarationExchange front first second)) := by
  obtain ⟨hFront, hFirst, hSecond, hBack⟩ := filesFrom_exchange front first second back
  rw [filesFrom_behind, filesFrom_behind]
  exact getElem?_exchange_map hFront hFirst hSecond hBack (filesFrom_length _ _)
    (filesFrom_length _ _) (filesFrom_length _ _) number

private theorem files_perm :
    (filesFrom 0 (front ++ second :: first :: back)).Perm
      ((filesFrom 0 (front ++ first :: second :: back)).map
        (·.renumber (declarationExchange front first second))) := by
  obtain ⟨hFront, hFirst, hSecond, hBack⟩ := filesFrom_exchange front first second back
  rw [filesFrom_behind, filesFrom_behind]
  simp only [List.map_append, hFront, hFirst, hSecond, hBack]
  exact (List.perm_append_comm_assoc _ _ _).append_left _

/-- The place of a name among all names. -/
private theorem idxOf_exchange
    (distinct : ((front ++ first :: second :: back).flatMap (·.qualifiedNames)).Nodup)
    {name : String} (mem : name ∈ (front ++ first :: second :: back).flatMap (·.qualifiedNames)) :
    ((front ++ second :: first :: back).flatMap (·.qualifiedNames)).idxOf name =
      declarationExchange front first second
        (((front ++ first :: second :: back).flatMap (·.qualifiedNames)).idxOf name) := by
  have hNames : ∀ one other : SourceFile,
      (front ++ one :: other :: back).flatMap (·.qualifiedNames) =
        front.flatMap (·.qualifiedNames) ++
          (one.qualifiedNames ++ (other.qualifiedNames ++ back.flatMap (·.qualifiedNames))) := by
    intro one other
    simp
  have hSwapped : ((front ++ second :: first :: back).flatMap (·.qualifiedNames)).Nodup :=
    ((List.Perm.swap second first back).append_left front |>.flatMap_right _).nodup_iff.mp
      distinct
  rw [hNames] at hSwapped distinct mem ⊢
  rw [hNames]
  set names := front.flatMap (·.qualifiedNames) ++ (first.qualifiedNames ++
    (second.qualifiedNames ++ back.flatMap (·.qualifiedNames))) with hSet
  have hPlace : names[names.idxOf name]? = some name := List.getElem?_idxOf mem
  rw [hSet, ← getElem?_exchange, ← hSet] at hPlace
  obtain ⟨hLess, hName⟩ := List.getElem?_eq_some_iff.mp hPlace
  have hFound := List.Nodup.idxOf_getElem hSwapped _ hLess
  rw [hName] at hFound
  rw [hFound, length_flatMap_names, SourceFile.length_qualifiedNames,
    SourceFile.length_qualifiedNames]

end Exchange

/-- **Neighbours may change places.**  When two neighbours among sources whose names are all
different change places, their declarations and their files change places, and nothing else
changes. -/
theorem renumbered_of_exchange (includeStatic : Bool) {front : List SourceFile}
    {first second : SourceFile} {back : List SourceFile}
    (distinct : ((front ++ first :: second :: back).flatMap (·.qualifiedNames)).Nodup) :
    Registry.Renumbered (declarationExchange front first second) (fileExchange front)
      ((front ++ first :: second :: back).foldl Registry.add (.empty includeStatic))
      ((front ++ second :: first :: back).foldl Registry.add (.empty includeStatic)) where
  includeStatic := by rw [foldl_add_includeStatic, foldl_add_includeStatic]
  files number := by
    rw [foldl_add_files, foldl_add_files]
    exact files_exchange front first second back number
  declarations number := by
    rw [foldl_add_declarations, foldl_add_declarations]
    exact declarations_exchange front first second back number
  byName name := by
    have perm : ((front ++ second :: first :: back).flatMap (·.qualifiedNames)).Perm
        ((front ++ first :: second :: back).flatMap (·.qualifiedNames)) :=
      ((List.Perm.swap first second back).append_left front).flatMap_right _
    rw [get?_foldl_add distinct, get?_foldl_add (perm.nodup_iff.mpr distinct)]
    simp only [perm.mem_iff]
    split
    · next mem =>
        rw [idxOf_exchange front first second back distinct mem]
        simp [Registry.empty]
    · rfl

/-! ## Sources in any order -/

@[simp] theorem RegisteredFile.renumber_id (file : RegisteredFile) : file.renumber id = file := by
  simp [RegisteredFile.renumber]

theorem RegisteredFile.renumber_comp (ρ σ : Nat → Nat) (file : RegisteredFile) :
    (file.renumber ρ).renumber σ = file.renumber (σ ∘ ρ) := by
  simp [RegisteredFile.renumber]

namespace Registry.Renumbered

theorem refl (registry : Registry) :
    Renumbered (Equiv.refl Nat) (Equiv.refl Nat) registry registry where
  includeStatic := rfl
  files number := by
    cases h : registry.files[number]? <;> simp [h]
  declarations number := by
    cases h : registry.declarations[number]? <;> simp [h, Registered.renumber]
  byName name := by simp

theorem trans {ρ φ σ ψ : Equiv.Perm Nat} {first second third : Registry}
    (h : Renumbered ρ φ first second) (h' : Renumbered σ ψ second third) :
    Renumbered (ρ.trans σ) (φ.trans ψ) first third where
  includeStatic := h'.includeStatic.trans h.includeStatic
  files number := by
    simp only [Equiv.trans_apply, h'.files, h.files, Option.map_map]
    congr 1
    funext file
    exact file.renumber_comp ρ σ
  declarations number := by
    simp only [Equiv.trans_apply, h'.declarations, h.declarations, Option.map_map]
    congr 1
    funext registered
    simp [Registered.renumber, Entity.renumber_comp, Equiv.coe_trans]
  byName name := by
    simp only [h'.byName, h.byName, Option.map_map, Equiv.coe_trans]

end Registry.Renumbered

/-- Sources in another order are registered under other numbers, file by file.  The induction is on
the permutation, and whatever stands in front of what it permutes stays. -/
theorem exists_renumbered (includeStatic : Bool) {sources others : List SourceFile}
    (perm : sources.Perm others) (front : List SourceFile)
    (distinct : ((front ++ sources).flatMap (·.qualifiedNames)).Nodup) :
    ∃ ρ φ : Equiv.Perm Nat,
      Registry.Renumbered ρ φ
        ((front ++ sources).foldl Registry.add (.empty includeStatic))
        ((front ++ others).foldl Registry.add (.empty includeStatic)) ∧
      (filesFrom 0 (front ++ others)).Perm
        ((filesFrom 0 (front ++ sources)).map (·.renumber ρ)) := by
  induction perm generalizing front with
  | nil => exact ⟨_, _, .refl _, by simp⟩
  | cons source _ ih =>
      have hBehind := ih (front ++ [source])
      simp only [List.append_assoc, List.singleton_append] at hBehind
      exact hBehind distinct
  | swap first second back =>
      exact ⟨_, _, renumbered_of_exchange includeStatic distinct,
        files_perm front second first back⟩
  | trans perm _ ihFirst ihSecond =>
      obtain ⟨ρ, φ, hFirst, hFiles⟩ := ihFirst front distinct
      have hDistinct := ((perm.append_left front).flatMap_right
        (·.qualifiedNames)).nodup_iff.mp distinct
      obtain ⟨σ, ψ, hSecond, hFiles'⟩ := ihSecond front hDistinct
      refine ⟨_, _, hFirst.trans hSecond, hFiles'.trans ?_⟩
      have hMapped := hFiles.map (·.renumber σ)
      simpa [RegisteredFile.renumber_comp, Function.comp_def] using hMapped

/-- **The order of the sources does not matter.**  Let the qualified names of all declarations in
some sources be different, and let the same sources come in another order.  Then there are new
numbers under which each class of the one model is the same class of the other one, of the same
declaration, with the references of its fields under the new numbers and all other types as they
are; each source has the same entries under the new numbers; and each class has the same schema,
for every visited set, and leaves the same visited set. -/
theorem buildModel_renumbered {sources others : List SourceFile} (perm : sources.Perm others)
    (distinct : (sources.flatMap (·.qualifiedNames)).Nodup) (includeStatic : Bool) :
    ∃ ρ : Equiv.Perm Nat,
      let registry := buildModel sources includeStatic
      let renumbered := buildModel others includeStatic
      Model.Renumbered ρ registry.model renumbered.model ∧
      (∀ number, (renumbered.declarations[ρ number]?).map (·.declaration) =
        (registry.declarations[number]?).map (·.declaration)) ∧
      registry.files.map (·.source) = sources ∧ renumbered.files.map (·.source) = others ∧
      renumbered.files.Perm (registry.files.map (·.renumber ρ)) ∧
      ∀ number visited, renumbered.model.compileClass (ρ number) visited =
        registry.model.compileClass number visited := by
  obtain ⟨ρ, φ, hRegistered, hFiles⟩ := exists_renumbered includeStatic perm [] distinct
  have hBuilt : Registry.Renumbered ρ φ (buildModel sources includeStatic)
      (buildModel others includeStatic) := hRegistered.build
  have files : ∀ list : List SourceFile,
      (buildModel list includeStatic).files = filesFrom 0 list := by
    intro list
    exact foldl_add_files (.empty includeStatic) list
  refine ⟨ρ, hBuilt.model, ?_, ?_, ?_, ?_, hBuilt.model.compileClass⟩
  · intro number
    rw [hBuilt.declarations, Option.map_map]
    rfl
  · rw [files, filesFrom_sources]
  · rw [files, filesFrom_sources]
  · rw [files, files]
    exact hFiles

/-- A class with a class inside it, in one package. -/
def itemSource : SourceFile where
  package := "shop"
  imports := []
  types :=
    [⟨.classDecl, "Item", [], [],
      [⟨"parts", ⟨"java.util.List", [⟨"Part", [], 1⟩], 0⟩, none, []⟩,
       ⟨"order", ⟨"sale.Order", [], 0⟩, none, []⟩], [],
      [⟨.classDecl, "Part", [], [], [], [], []⟩]⟩]

/-- A class of another package that refers to both. -/
def orderSource : SourceFile where
  package := "sale"
  imports := [⟨"shop", false, true⟩]
  types :=
    [⟨.classDecl, "Order", [], [],
      [⟨"first", ⟨"Item.Part", [], 0⟩, none, []⟩, ⟨"all", ⟨"Item", [], 1⟩, none, []⟩], [], []⟩]

/-- The order has the number 2 behind the item and the part, and the number 0 in front of them; its
schema is the same. -/
theorem buildModel_itemsAndOrders :
    [itemSource, orderSource].Perm [orderSource, itemSource] ∧
      ([itemSource, orderSource].flatMap (·.qualifiedNames)).Nodup ∧
      (buildModel [orderSource, itemSource] true).model.compileClass 0 [] =
        (buildModel [itemSource, orderSource] true).model.compileClass 2 [] := by
  have perm : [itemSource, orderSource].Perm [orderSource, itemSource] := .swap _ _ _
  have distinct : ([itemSource, orderSource].flatMap (·.qualifiedNames)).Nodup := by decide +kernel
  obtain ⟨ρ, -, hDeclarations, -, -, -, hSchemas⟩ := buildModel_renumbered perm distinct true
  have hNames : (buildModel [orderSource, itemSource] true).declarations.map
      (·.declaration.name) = ["Order", "Item", "Part"] := rfl
  have hPlace : (["Order", "Item", "Part"] : List String)[ρ 2]? = some "Order" := by
    have hOrder := congrArg (Option.map (·.name)) (hDeclarations 2)
    rw [Option.map_map, Option.map_map] at hOrder
    rw [← hNames, List.getElem?_map]
    exact hOrder
  have hZero : ρ 2 = 0 := by
    generalize ρ 2 = number at hPlace
    match number with
    | 0 => rfl
    | 1 => simp at hPlace
    | 2 => simp at hPlace
    | _ + 3 => simp at hPlace
  refine ⟨perm, distinct, ?_⟩
  rw [← hSchemas 2 [], hZero]

end ClassSchema.Java
