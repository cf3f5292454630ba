import Xbks.Process.Boot
import Xbks.Process.Contents
import Xbks.Process.Dirent

/-!
# The stack of a new program

`buildUserStack` pushes the strings of the environment and of the arguments, rounds the stack pointer
down to a multiple of 16 and pushes the vector of pointers to them. What the program finds from its
stack pointer on is said here, and when the stack pointer is still a multiple of 16.
-/

namespace Xbks

variable {p stack stack' : UInt64} {s s' : Mm} {F : List UInt64} {m : Memory UInt8}
  {process process' : Process} {argv envp texts : List CString} {a : ℕ}

/-! ### Pushing -/

lemma sourceBytes_byteOfList (data : List UInt8) : sourceBytes (byteOfList data) 0 data.length = data := by
  apply List.ext_getElem
  · rw [length_sourceBytes]
  · intro i hi hi'
    simp [sourceBytes, byteOfList, hi']

/-- Pushing bytes is a store below the stack pointer. -/
lemma pushBytes_view {data : List UInt8} (hdata : data.length < 2 ^ 64) (hpool : Pool s F)
    (hsep : Separate s 4 p F) (h : pushBytes s p stack data = (some stack', s')) :
    stack' = stack - UInt64.ofNat data.length ∧ s'.view p = (s.view p).store stack'.toNat data := by
  have hlen : (UInt64.ofNat data.length).toNat = data.length := Word.toNat_ofNat_of_lt hdata
  rw [pushBytes] at h
  by_cases hcheck : data.length ≠ 0 ∧
      ¬userRangeIsValid (stack - UInt64.ofNat data.length) (UInt64.ofNat data.length) = true
  · simp only [if_pos hcheck] at h
    cases h
  · simp only [if_neg hcheck] at h
    rcases hr : writeProcessMemory s p (stack - UInt64.ofNat data.length) (byteOfList data) 0
      data.length with ⟨_ | _, s₁⟩
    · rw [hr] at h
      cases h
    · rw [hr] at h
      cases h
      refine ⟨rfl, ?_⟩
      by_cases hzero : data.length = 0
      · obtain rfl := List.eq_nil_of_length_eq_zero hzero
        cases hr
        rw [Memory.store_nil]
      · have hne : UInt64.ofNat data.length ≠ 0 := by
          rw [← Word.pos_iff_ne_zero, hlen]
          omega
        have hvalid : userRangeIsValid (stack - UInt64.ofNat data.length)
            (UInt64.ofNat data.length) = true := by
          by_contra hno
          exact hcheck ⟨hzero, hno⟩
        rw [userRangeIsValid_iff hne, hlen] at hvalid
        rw [writeProcessMemory_view hvalid.1 hvalid.2 hpool hsep hr, sourceBytes_byteOfList]

/-- The bytes of strings that follow each other, each with its end. -/
def stringBlock (texts : List CString) : List UInt8 := (texts.map (· ++ [0])).flatten

/-- The addresses of strings that follow each other from `a` on. -/
def stringAddresses : ℕ → List CString → List UInt64
  | _, [] => []
  | a, text :: rest => UInt64.ofNat a :: stringAddresses (a + (text.length + 1)) rest

@[simp] lemma stringBytes_cons (text : CString) (rest : List CString) :
    stringBytes (text :: rest) = text.length + 1 + stringBytes rest := by
  simp [stringBytes]

lemma length_stringBlock (texts : List CString) : (stringBlock texts).length = stringBytes texts := by
  induction texts with
  | nil => rfl
  | cons text rest ih =>
    rw [stringBlock, List.map_cons, List.flatten_cons, List.length_append, ← stringBlock, ih, stringBytes_cons,
      List.length_append, List.length_singleton]

@[simp] lemma length_stringAddresses (a : ℕ) (texts : List CString) :
    (stringAddresses a texts).length = texts.length := by
  induction texts generalizing a with
  | nil => rfl
  | cons text rest ih => rw [stringAddresses, List.length_cons, List.length_cons, ih]

lemma stringAddresses_append (a : ℕ) (texts rest : List CString) : stringAddresses a (texts ++ rest) =
    stringAddresses a texts ++ stringAddresses (a + stringBytes texts) rest := by
  induction texts generalizing a with
  | nil => rfl
  | cons text texts ih =>
    rw [List.cons_append, stringAddresses, ih, stringAddresses, List.cons_append, stringBytes_cons,
      Nat.add_assoc]

/-- Pushing strings stores them one after the other, the last one first. -/
lemma pushStrings_view {addresses addresses' : List UInt64} (hroom : stringBytes texts ≤ stack.toNat)
    (hpool : Pool s F) (hsep : Separate s 4 p F)
    (h : pushStrings p s stack addresses texts = (some (stack', addresses'), s')) :
    stack'.toNat = stack.toNat - stringBytes texts ∧
    addresses' = stringAddresses stack'.toNat texts.reverse ++ addresses ∧
    s'.view p = (s.view p).store stack'.toNat (stringBlock texts.reverse) := by
  induction texts generalizing s stack addresses with
  | nil =>
    cases h
    exact ⟨rfl, rfl, Memory.store_nil.symm⟩
  | cons text rest ih =>
    have hlt := stack.toNat_lt
    have hlen : (text ++ [0]).length = text.length + 1 := by simp
    rw [stringBytes_cons] at hroom
    rw [pushStrings] at h
    rcases hr : pushBytes s p stack (text ++ [0]) with ⟨_ | stack₁, s₁⟩
    · rw [hr] at h
      cases h
    · rw [hr] at h
      dsimp only at h
      have hdata : (text ++ [0]).length < 2 ^ 64 := by omega
      obtain ⟨hg, -⟩ := pushBytes_spec (A := ∅) stack hdata hpool hsep
      obtain ⟨rfl, hview⟩ := pushBytes_view hdata hpool hsep hr
      rw [hr] at hg
      have hofNat : (UInt64.ofNat (text ++ [0]).length).toNat = text.length + 1 := by
        rw [Word.toNat_ofNat_of_lt hdata, hlen]
      have hsub : (stack - UInt64.ofNat (text ++ [0]).length).toNat = stack.toNat - (text.length + 1) := by
        rw [UInt64.toNat_sub_of_le _ _ (by rw [UInt64.le_iff_toNat_le]; omega), hofNat]
      obtain ⟨hstack, haddresses, hview'⟩ := ih (by omega) hg.pool (hg.separate hsep) h
      have hend : stack'.toNat + stringBytes rest = (stack - UInt64.ofNat (text ++ [0]).length).toNat := by
        omega
      refine ⟨by rw [stringBytes_cons]; omega, ?_, ?_⟩
      · rw [haddresses, List.reverse_cons, stringAddresses_append, List.append_assoc, stringBytes_reverse,
          hend, stringAddresses, UInt64.ofNat_toNat]
        rfl
      · have hblock : stringBlock (text :: rest).reverse = stringBlock rest.reverse ++ (text ++ [0]) := by
          simp [stringBlock]
        have hsplit : (s.view p).store stack'.toNat (stringBlock rest.reverse ++ (text ++ [0])) =
            ((s.view p).store (stack'.toNat + (stringBlock rest.reverse).length) (text ++ [0])).store
              stack'.toNat (stringBlock rest.reverse) := Memory.store_append_below
        rw [hview', hview, hblock, hsplit, length_stringBlock, stringBytes_reverse, hend]

/-- The bytes of words that follow each other. -/
def wordBlock (words : List UInt64) : List UInt8 := (words.map wordBytes).flatten

lemma length_wordBlock (words : List UInt64) : (wordBlock words).length = 8 * words.length := by
  induction words with
  | nil => rfl
  | cons word rest ih =>
    rw [wordBlock, List.map_cons, List.flatten_cons, List.length_append, length_wordBytes, List.length_cons,
      ← wordBlock, ih]
    omega

/-- The stack pointer after words have been pushed. -/
lemma pushWords_stack {words : List UInt64} (h : pushWords p s stack words = (some stack', s')) :
    stack' = stack - UInt64.ofNat (8 * words.length) := by
  induction words generalizing s stack with
  | nil =>
    cases h
    exact (UInt64.sub_zero _).symm
  | cons word rest ih =>
    rw [pushWords, pushU64] at h
    rcases hr : pushBytes s p stack (wordBytes word) with ⟨_ | stack₁, s₁⟩
    · rw [hr] at h
      cases h
    · rw [hr] at h
      have hstack₁ : stack₁ = stack - UInt64.ofNat 8 := by
        rw [pushBytes] at hr
        split_ifs at hr with hcheck
        · cases hr
        · rcases hw : writeProcessMemory s p (stack - UInt64.ofNat (wordBytes word).length)
            (byteOfList (wordBytes word)) 0 (wordBytes word).length with ⟨_ | _, s₂⟩
          · simp only [hw] at hr
            cases hr
          · simp only [hw] at hr
            cases hr
            rw [length_wordBytes]
      rw [ih h, hstack₁, List.length_cons, Nat.mul_succ, UInt64.ofNat_add]
      grind

lemma pushWords_view {words : List UInt64} (hroom : 8 * words.length ≤ stack.toNat) (hpool : Pool s F)
    (hsep : Separate s 4 p F) (h : pushWords p s stack words = (some stack', s')) :
    stack'.toNat = stack.toNat - 8 * words.length ∧
    s'.view p = (s.view p).store stack'.toNat (wordBlock words.reverse) := by
  induction words generalizing s stack with
  | nil =>
    cases h
    exact ⟨rfl, Memory.store_nil.symm⟩
  | cons word rest ih =>
    rw [pushWords, pushU64] at h
    rw [List.length_cons] at hroom
    rcases hr : pushBytes s p stack (wordBytes word) with ⟨_ | stack₁, s₁⟩
    · rw [hr] at h
      cases h
    · rw [hr] at h
      dsimp only at h
      have hdata : (wordBytes word).length < 2 ^ 64 := by rw [length_wordBytes]; norm_num
      obtain ⟨hg, -⟩ := pushBytes_spec (A := ∅) stack hdata hpool hsep
      obtain ⟨rfl, hview⟩ := pushBytes_view hdata hpool hsep hr
      rw [hr] at hg
      have hofNat : (UInt64.ofNat (wordBytes word).length).toNat = 8 := by rw [length_wordBytes]; rfl
      have hsub : (stack - UInt64.ofNat (wordBytes word).length).toNat = stack.toNat - 8 := by
        rw [UInt64.toNat_sub_of_le _ _ (by rw [UInt64.le_iff_toNat_le]; omega), hofNat]
      obtain ⟨hstack, hview'⟩ := ih (by omega) hg.pool (hg.separate hsep) h
      have hend : stack'.toNat + 8 * rest.length = (stack - UInt64.ofNat (wordBytes word).length).toNat := by
        omega
      refine ⟨by rw [List.length_cons]; omega, ?_⟩
      have hblock : wordBlock (word :: rest).reverse = wordBlock rest.reverse ++ wordBytes word := by
        simp [wordBlock]
      rw [hview', hview, hblock, Memory.store_append_below, length_wordBlock, List.length_reverse, hend]

/-- The words at the top of the stack, in the order in which the program reads them. -/
def startWords (args env : List UInt64) : List UInt64 :=
  [UInt64.ofNat args.length] ++ args ++ [0] ++ env ++ [0]

/-- The stages of a successful `buildUserStack`. -/
structure Stages (s : Mm) (process process' : Process) (argv envp : List CString) (s' : Mm) where
  s₁ : Mm
  s₂ : Mm
  s₃ : Mm
  stack₂ : UInt64
  stack₃ : UInt64
  stack₄ : UInt64
  args : List UInt64
  env : List UInt64
  map : mapUserRange s process.cr3 (userStackTop - userStackSize) userStackSize pageWritable = (true, s₁)
  pushEnv : pushStrings process.cr3 s₁ userStackTop [] envp.reverse = (some (stack₂, env), s₂)
  pushArgs : pushStrings process.cr3 s₂ stack₂ [] argv.reverse = (some (stack₃, args), s₃)
  pushVector : pushWords process.cr3 s₃ (stack₃ &&& ~~~0xf)
    ([0] ++ env.reverse ++ [0] ++ args.reverse ++ [UInt64.ofNat argv.length]) = (some stack₄, s')
  result : process' = { process with stack := stack₄ }

lemma buildUserStack_stages (h : buildUserStack s process argv envp = (true, process', s')) :
    Nonempty (Stages s process process' argv envp s') := by
  rw [buildUserStack] at h
  rcases hr₁ : mapUserRange s process.cr3 (userStackTop - userStackSize) userStackSize pageWritable
    with ⟨_ | _, s₁⟩
  · rw [hr₁] at h
    cases h
  rw [hr₁] at h
  dsimp only at h
  rcases hr₂ : pushStrings process.cr3 s₁ userStackTop [] envp.reverse with ⟨_ | ⟨stack₂, env⟩, s₂⟩
  · rw [hr₂] at h
    cases h
  rw [hr₂] at h
  dsimp only at h
  rcases hr₃ : pushStrings process.cr3 s₂ stack₂ [] argv.reverse with ⟨_ | ⟨stack₃, args⟩, s₃⟩
  · rw [hr₃] at h
    cases h
  rw [hr₃] at h
  dsimp only at h
  rcases hr₄ : pushWords process.cr3 s₃ (stack₃ &&& ~~~0xf)
    ([0] ++ env.reverse ++ [0] ++ args.reverse ++ [UInt64.ofNat argv.length]) with ⟨_ | stack₄, s₄⟩
  · rw [hr₄] at h
    cases h
  rw [hr₄] at h
  cases h
  exact ⟨⟨s₁, s₂, s₃, stack₂, stack₃, stack₄, args, env, hr₁, hr₂, hr₃, hr₄, rfl⟩⟩

/-- There are as many addresses as strings. -/
lemma pushStrings_length {addresses addresses' : List UInt64}
    (h : pushStrings p s stack addresses texts = (some (stack', addresses'), s')) :
    addresses'.length = addresses.length + texts.length := by
  induction texts generalizing s stack addresses with
  | nil =>
    cases h
    rfl
  | cons text rest ih =>
    rw [pushStrings] at h
    rcases hr : pushBytes s p stack (text ++ [0]) with ⟨_ | stack₁, s₁⟩
    · rw [hr] at h
      cases h
    · rw [hr] at h
      rw [ih h, List.length_cons, List.length_cons]
      omega

/-! ### Alignment -/

/-- The rounding comes before the vector, which has three words more than there are strings. -/
lemma stack_mod (h : buildUserStack s process argv envp = (true, process', s')) :
    process'.stack.toNat % 16 = 8 * ((argv.length + envp.length + 1) % 2) := by
  obtain ⟨t⟩ := buildUserStack_stages h
  have henv := pushStrings_length t.pushEnv
  have hargs := pushStrings_length t.pushArgs
  have hstack := pushWords_stack t.pushVector
  have halign := toNat_align16 t.stack₃
  have hlen : ([0] ++ t.env.reverse ++ [0] ++ t.args.reverse ++ [UInt64.ofNat argv.length]).length =
      argv.length + envp.length + 3 := by
    simp only [List.length_append, List.length_cons, List.length_nil, List.length_reverse] at henv hargs ⊢
    omega
  have hofNat : (UInt64.ofNat (8 * (argv.length + envp.length + 3))).toNat =
      8 * (argv.length + envp.length + 3) % 2 ^ 64 := UInt64.toNat_ofNat'
  rw [hlen] at hstack
  rw [t.result]
  dsimp only
  rw [hstack, UInt64.toNat_sub, hofNat, halign]
  omega

/-- The stack pointer of a new program is a multiple of 16 exactly when the number of arguments and
environment strings is odd. -/
theorem buildUserStack_aligned_iff (h : buildUserStack s process argv envp = (true, process', s')) :
    process'.stack.toNat % 16 = 0 ↔ (argv.length + envp.length) % 2 = 1 := by
  have hmod := stack_mod h
  omega

/-- The stack can be built in a new address space of the small machine. -/
lemma small_stack (hfit : ArgumentsFit argv envp) : ∃ process s process' s',
    createKernelMappedPml4 (mmInit (smallBoot 0x10000).memory) = (Process.cr3 process, s) ∧
    buildUserStack s process argv envp = (true, process', s') := by
  obtain ⟨process, s, F, hnew, hpool, hsep, hempty, hlen⟩ := smallBoot_new 0x10000
  have hok := buildUserStack_ok hfit hpool hsep (fun path _ => hempty path) (by omega)
  rcases hr : buildUserStack s process argv envp with ⟨_ | _, process', s'⟩
  · rw [hr] at hok
    cases hok
  · exact ⟨process, s, process', s', hnew, hr⟩

/-- With two arguments and one environment string. -/
theorem buildUserStack_aligned_small : ∃ process s process' s',
    createKernelMappedPml4 (mmInit (smallBoot 0x10000).memory) = (Process.cr3 process, s) ∧
    buildUserStack s process [cstr "ls", cstr "/"] initEnvp = (true, process', s') ∧
    process'.stack.toNat % 16 = 0 := by
  obtain ⟨process, s, process', s', hnew, h⟩ :=
    small_stack (show ArgumentsFit [cstr "ls", cstr "/"] initEnvp by decide)
  exact ⟨process, s, process', s', hnew, h, (buildUserStack_aligned_iff h).mpr (by decide)⟩

/-- The stack of the first process, with one argument and one environment string, is not aligned. -/
theorem init_stack_misaligned : ∃ process s process' s',
    createKernelMappedPml4 (mmInit (smallBoot 0x10000).memory) = (Process.cr3 process, s) ∧
    buildUserStack s process initArgv initEnvp = (true, process', s') ∧
    process'.stack.toNat % 16 ≠ 0 := by
  obtain ⟨process, s, process', s', hnew, h⟩ := small_stack (show ArgumentsFit initArgv initEnvp by decide)
  refine ⟨process, s, process', s', hnew, h, ?_⟩
  have hstack := stack_mod h
  have hlen : initArgv.length + initEnvp.length = 2 := rfl
  omega

/-! ### Layout -/

/-- The word at an address. -/
def wordAt (m : Memory UInt8) (a : ℕ) : Option UInt64 := (m.load a 8).map wordOfBytes

/-- Where strings lie: their addresses and the bytes they take with their ends. -/
def stringPieces (addresses : List UInt64) (texts : List CString) : List (ℕ × ℕ) :=
  List.zipWith (fun x text => (x.toNat, text.length + 1)) addresses texts

/-- Two pieces of memory have no byte in common. -/
def PiecesApart (x y : ℕ × ℕ) : Prop := x.1 + x.2 ≤ y.1 ∨ y.1 + y.2 ≤ x.1

/-- The vector of pointers and the strings. -/
def stackPieces (stack : ℕ) (argv envp : List CString) (args env : List UInt64) : List (ℕ × ℕ) :=
  (stack, 8 * (startWords args env).length) :: (stringPieces args argv ++ stringPieces env envp)

/-- What the program finds from its stack pointer on: the number of arguments, the pointers to them, 0, the
pointers to the environment strings and 0. -/
structure StackLayout (m : Memory UInt8) (stack : ℕ) (argv envp : List CString) (args env : List UInt64) :
    Prop where
  words : ∀ j < (startWords args env).length, wordAt m (stack + 8 * j) = (startWords args env)[j]?
  arguments : List.Forall₂ (fun x text => HoldsString m x.toNat text) args argv
  environment : List.Forall₂ (fun x text => HoldsString m x.toNat text) env envp
  apart : (stackPieces stack argv envp args env).Pairwise PiecesApart
  inside : ∀ x ∈ stackPieces stack argv envp args env, stackBottom ≤ x.1 ∧ x.1 + x.2 ≤ stackTop

lemma words_of_block {words : List UInt64} {j : ℕ} (h : m.load a (8 * words.length) = some (wordBlock words))
    (hj : j < words.length) : wordAt m (a + 8 * j) = words[j]? := by
  have hsplit : words = words.take j ++ [words[j]] ++ words.drop (j + 1) := by simp
  have hblock : wordBlock words =
      wordBlock (words.take j) ++ wordBytes words[j] ++ wordBlock (words.drop (j + 1)) := by
    conv_lhs => rw [hsplit]
    simp only [wordBlock, List.map_append, List.flatten_append, List.map_cons, List.map_nil, List.flatten_cons,
      List.flatten_nil, List.append_nil]
  have hload := Memory.load_part _ _ _ h hblock
  rw [length_wordBlock, List.length_take_of_le hj.le, length_wordBytes] at hload
  rw [wordAt, hload, Option.map_some, wordOfBytes_wordBytes, List.getElem?_eq_getElem hj]

lemma strings_of_block (hlt : a + stringBytes texts < 2 ^ 64) (hnonzero : ∀ text ∈ texts, 0 ∉ text)
    (h : m.load a (stringBytes texts) = some (stringBlock texts)) :
    List.Forall₂ (fun x text => HoldsString m x.toNat text) (stringAddresses a texts) texts := by
  induction texts generalizing a with
  | nil => exact .nil
  | cons text rest ih =>
    obtain ⟨htext, hrest⟩ := List.forall_mem_cons.mp hnonzero
    rw [stringBytes_cons] at hlt
    have hblock : stringBlock (text :: rest) = [] ++ (text ++ [0]) ++ stringBlock rest := by
      simp [stringBlock]
    have hblock' : stringBlock (text :: rest) = (text ++ [0]) ++ stringBlock rest ++ [] := by
      simp [stringBlock]
    have hhead := Memory.load_part _ _ _ h hblock
    have htail := Memory.load_part _ _ _ h hblock'
    rw [List.length_append, List.length_singleton, length_stringBlock] at htail
    refine .cons ?_ (ih (by omega) hrest htail)
    rw [Word.toNat_ofNat_of_lt (by omega)]
    exact holdsString_of_load htext hhead

/-- Strings that follow each other. -/
lemma stringPieces_spec (hlt : a + stringBytes texts < 2 ^ 64) :
    (stringPieces (stringAddresses a texts) texts).Pairwise PiecesApart ∧
    ∀ x ∈ stringPieces (stringAddresses a texts) texts, a ≤ x.1 ∧ x.1 + x.2 ≤ a + stringBytes texts := by
  induction texts generalizing a with
  | nil => exact ⟨.nil, fun x hx => absurd hx List.not_mem_nil⟩
  | cons text rest ih =>
    rw [stringBytes_cons] at hlt ⊢
    obtain ⟨hapart, hinside⟩ := @ih (a + (text.length + 1)) (by omega)
    have ha : (UInt64.ofNat a).toNat = a := Word.toNat_ofNat_of_lt (by omega)
    have hcons : stringPieces (stringAddresses a (text :: rest)) (text :: rest) =
        (a, text.length + 1) :: stringPieces (stringAddresses (a + (text.length + 1)) rest) rest := by
      rw [stringAddresses, stringPieces, List.zipWith_cons_cons, ha]
      rfl
    rw [hcons]
    refine ⟨List.pairwise_cons.mpr ⟨fun x hx => .inl (hinside x hx).1, hapart⟩, fun x hx => ?_⟩
    rcases List.mem_cons.mp hx with rfl | hx
    · dsimp only
      omega
    · have := hinside x hx
      omega

/-- The memory after the strings and the vector have been stored one below the other. -/
lemma StackLayout.of_stores {e b w : ℕ} (henv : e + stringBytes envp = stackTop)
    (hargs : b + stringBytes argv = e) (hwords : w + 8 * (argv.length + envp.length + 3) ≤ b)
    (hbottom : stackBottom ≤ w) (hargv : ∀ text ∈ argv, 0 ∉ text) (henvp : ∀ text ∈ envp, 0 ∉ text) :
    StackLayout (((m.store e (stringBlock envp)).store b (stringBlock argv)).store w
        (wordBlock (startWords (stringAddresses b argv) (stringAddresses e envp))))
      w argv envp (stringAddresses b argv) (stringAddresses e envp) := by
  have hlen : (startWords (stringAddresses b argv) (stringAddresses e envp)).length =
      argv.length + envp.length + 3 := by
    simp only [startWords, List.length_append, List.length_cons, List.length_nil, length_stringAddresses]
    omega
  have htop : stackTop = 0x7fffffffe000 := rfl
  have hblock := length_wordBlock (startWords (stringAddresses b argv) (stringAddresses e envp))
  have hblock₁ := length_stringBlock argv
  have hblock₂ := length_stringBlock envp
  generalize hvector : startWords (stringAddresses b argv) (stringAddresses e envp) = vector at hlen hblock ⊢
  -- each store is below those before it
  have hload₁ : (((m.store e (stringBlock envp)).store b (stringBlock argv)).store w (wordBlock vector)).load b
      (stringBytes argv) = some (stringBlock argv) := by
    rw [Memory.load_congr fun x hx _ => Memory.store_outside (.inr (by omega)), ← hblock₁]
    exact Memory.load_store
  have hload₂ : (((m.store e (stringBlock envp)).store b (stringBlock argv)).store w (wordBlock vector)).load e
      (stringBytes envp) = some (stringBlock envp) := by
    rw [Memory.load_congr fun x hx _ => Memory.store_outside (.inr (by omega)),
      Memory.load_congr fun x hx _ => Memory.store_outside (.inr (by omega)), ← hblock₂]
    exact Memory.load_store
  obtain ⟨hapart₁, hinside₁⟩ := @stringPieces_spec argv b (by omega)
  obtain ⟨hapart₂, hinside₂⟩ := @stringPieces_spec envp e (by omega)
  refine ⟨fun j hj => ?_, strings_of_block (by omega) hargv hload₁, strings_of_block (by omega) henvp hload₂,
    ?_, ?_⟩
  · rw [hvector] at hj ⊢
    refine words_of_block ?_ hj
    rw [← hblock]
    exact Memory.load_store
  · rw [stackPieces, hvector, List.pairwise_cons, List.pairwise_append]
    refine ⟨fun x hx => .inl ?_, hapart₁, hapart₂, fun x hx y hy => .inl ?_⟩
    · rcases List.mem_append.mp hx with hx | hx
      · have := hinside₁ x hx
        dsimp only
        omega
      · have := hinside₂ x hx
        dsimp only
        omega
    · have := hinside₁ x hx
      have := hinside₂ y hy
      omega
  · rw [stackPieces, hvector]
    intro x hx
    rcases List.mem_cons.mp hx with rfl | hx
    · dsimp only
      omega
    · rcases List.mem_append.mp hx with hx | hx
      · have := hinside₁ x hx
        omega
      · have := hinside₂ x hx
        omega

/-- A short string takes at most 256 bytes. -/
lemma stringBytes_le (hlen : ∀ text ∈ texts, text.length ≤ 255) : stringBytes texts ≤ 256 * texts.length := by
  induction texts with
  | nil => exact Nat.zero_le _
  | cons text rest ih =>
    obtain ⟨htext, hrest⟩ := List.forall_mem_cons.mp hlen
    have := ih hrest
    rw [stringBytes_cons, List.length_cons]
    omega

/-- The stack pointer of a new program: the vector is below the strings, which are rounded down to 16. -/
def stackPointer (argv envp : List CString) : ℕ :=
  (stackTop - stringBytes envp - stringBytes argv) / 16 * 16 - 8 * (argv.length + envp.length + 3)

/-- A memory with the stack of a new program: zeros, the strings of the environment, those of the arguments
and the vector. -/
def addStack (argv envp : List CString) (m : Memory UInt8) : Memory UInt8 :=
  let e := stackTop - stringBytes envp
  let b := e - stringBytes argv
  (((m.fill 0 stackBottom stackTop).store e (stringBlock envp)).store b (stringBlock argv)).store
    (stackPointer argv envp) (wordBlock (startWords (stringAddresses b argv) (stringAddresses e envp)))

/-- What `buildUserStack` does to the memory when it succeeds. -/
lemma Stages.memory (t : Stages s process process' argv envp s') (hfit : ArgumentsFit argv envp)
    (hpool : Pool s F) (hsep : Separate s 4 process.cr3 F) :
    process'.stack.toNat = stackPointer argv envp ∧
      s'.view process.cr3 = addStack argv envp (s.view process.cr3) := by
  have hroom : (userStackTop - userStackSize).toNat + userStackSize.toNat < 2 ^ 47 := by decide
  have hfit' : stringBytes envp + stringBytes argv + 8 * (envp.length + argv.length + 3) + 16 ≤ 65536 := hfit
  have htop : userStackTop.toNat = stackTop := rfl
  have hnum : stackTop = 0x7fffffffe000 := rfl
  obtain ⟨F₁, h₁, -, -⟩ := mapUserRange_spec pageWritable hroom hpool hsep (by decide)
  have hview₁ := (mapUserRange_added hroom hpool hsep (by decide) t.map).eq_fill fun _ => Iff.rfl
  rw [t.map] at h₁
  have hsep₁ := h₁.toConserved.separate hsep
  -- the strings of the environment
  have hbytes₂ := stringBytes_reverse envp
  obtain ⟨h₂, -⟩ := pushStrings_spec (A := ∅) userStackTop []
    (show stringBytes envp.reverse < 2 ^ 64 by omega) h₁.pool hsep₁
  obtain ⟨hstack₂, henv, hview₂⟩ := pushStrings_view (by omega) h₁.pool hsep₁ t.pushEnv
  rw [t.pushEnv] at h₂
  have hsep₂ := h₂.toConserved.separate hsep₁
  rw [List.reverse_reverse, List.append_nil] at henv
  rw [List.reverse_reverse] at hview₂
  -- the arguments
  have hbytes₃ := stringBytes_reverse argv
  obtain ⟨h₃, -⟩ := pushStrings_spec (A := ∅) t.stack₂ []
    (show stringBytes argv.reverse < 2 ^ 64 by omega) h₂.pool hsep₂
  obtain ⟨hstack₃, hargs, hview₃⟩ := pushStrings_view (by omega) h₂.pool hsep₂ t.pushArgs
  rw [t.pushArgs] at h₃
  have hsep₃ := h₃.toConserved.separate hsep₂
  rw [List.reverse_reverse, List.append_nil] at hargs
  rw [List.reverse_reverse] at hview₃
  -- the vector
  have halign := toNat_align16 t.stack₃
  have hcount : t.args.length = argv.length := by rw [hargs, length_stringAddresses]
  have hvector : ([0] ++ t.env.reverse ++ [0] ++ t.args.reverse ++ [UInt64.ofNat argv.length]).reverse =
      startWords t.args t.env := by
    rw [startWords, hcount]
    simp
  have hlen : ([0] ++ t.env.reverse ++ [0] ++ t.args.reverse ++ [UInt64.ofNat argv.length]).length =
      argv.length + envp.length + 3 := by
    rw [hargs, henv]
    simp only [List.length_append, List.length_cons, List.length_nil, List.length_reverse,
      length_stringAddresses]
    omega
  obtain ⟨hstack₄, hview₄⟩ := pushWords_view (by omega) h₃.pool hsep₃ t.pushVector
  rw [hvector] at hview₄
  rw [hlen] at hstack₄
  have hresult : process'.stack = t.stack₄ := congrArg Process.stack t.result
  have he : t.stack₂.toNat = stackTop - stringBytes envp := by omega
  have hb : t.stack₃.toNat = stackTop - stringBytes envp - stringBytes argv := by omega
  have hw : t.stack₄.toNat = stackPointer argv envp := by rw [hstack₄, halign, hb, stackPointer]
  refine ⟨hresult ▸ hw, ?_⟩
  rw [hview₄, hview₃, hview₂, hview₁, hargs, henv, hw, hb, he]
  rfl

/-- What `buildUserStack` leaves when it succeeds. -/
lemma Stages.layout (t : Stages s process process' argv envp s') (hfit : ArgumentsFit argv envp)
    (hargv : ∀ text ∈ argv, 0 ∉ text) (henvp : ∀ text ∈ envp, 0 ∉ text) (hpool : Pool s F)
    (hsep : Separate s 4 process.cr3 F) : ∃ args env,
    stackBottom ≤ process'.stack.toNat ∧ process'.stack.toNat < stackTop ∧
    StackLayout (s'.view process.cr3) process'.stack.toNat argv envp args env := by
  have hfit' : stringBytes envp + stringBytes argv + 8 * (envp.length + argv.length + 3) + 16 ≤ 65536 := hfit
  have hsum : stackBottom + 65536 = stackTop := rfl
  obtain ⟨hstack, hview⟩ := t.memory hfit hpool hsep
  have hpointer : stackPointer argv envp =
      (stackTop - stringBytes envp - stringBytes argv) / 16 * 16 - 8 * (argv.length + envp.length + 3) := rfl
  rw [hstack, hview]
  refine ⟨_, _, by omega, by omega, .of_stores ?_ ?_ ?_ ?_ hargv henvp⟩ <;> omega

/-- With up to 31 arguments and environment strings of up to 255 characters, `buildUserStack` succeeds in an
address space without a page of the stack, and the program finds its arguments and environment on its stack. -/
theorem buildUserStack_layout (hargc : argv.length ≤ 31) (henvc : envp.length ≤ 31)
    (hargv : ∀ text ∈ argv, text.length ≤ 255 ∧ 0 ∉ text) (henvp : ∀ text ∈ envp, text.length ≤ 255 ∧ 0 ∉ text)
    (hpool : Pool s F) (hsep : Separate s 4 process.cr3 F)
    (hfree : ∀ a, stackBottom ≤ a → a < stackTop → s.view process.cr3 a = none) (hframes : 72 < F.length) :
    ∃ process' s' args env, buildUserStack s process argv envp = (true, process', s') ∧
      stackBottom ≤ process'.stack.toNat ∧ process'.stack.toNat < stackTop ∧
      StackLayout (s'.view process.cr3) process'.stack.toNat argv envp args env := by
  have hfit : ArgumentsFit argv envp :=
    argumentsFit_of_copied (Nat.lt_succ_of_le hargc) (Nat.lt_succ_of_le henvc)
      (stringBytes_le fun text htext => (hargv text htext).1) (stringBytes_le fun text htext => (henvp text htext).1)
  have hnone : ∀ path ∈ stackPaths, s.lookup 4 process.cr3 path = none := by
    rintro path ⟨v, hal, hge, hlt, rfl⟩
    have hbottom : stackBottom / 4096 * 4096 = stackBottom := rfl
    have htop : stackTop = 0x7fffffffe000 := rfl
    rw [← view_eq_none_iff (by omega)]
    exact hfree v.toNat (by omega) hlt
  have hok := buildUserStack_ok hfit hpool hsep hnone hframes
  rcases hr : buildUserStack s process argv envp with ⟨_ | _, process', s'⟩
  · rw [hr] at hok
    cases hok
  · obtain ⟨t⟩ := buildUserStack_stages hr
    obtain ⟨args, env, hge, hlt, hlayout⟩ := t.layout hfit (fun text htext => (hargv text htext).2)
      (fun text htext => (henvp text htext).2) hpool hsep
    exact ⟨process', s', args, env, rfl, hge, hlt, hlayout⟩

/-- The stack of the first process. -/
theorem buildUserStack_layout_small : ∃ process s process' s' args env,
    createKernelMappedPml4 (mmInit (smallBoot 0x10000).memory) = (Process.cr3 process, s) ∧
    buildUserStack s process initArgv initEnvp = (true, process', s') ∧
    StackLayout (s'.view process.cr3) process'.stack.toNat initArgv initEnvp args env := by
  obtain ⟨process, s, F, hnew, hpool, hsep, hempty, hlen⟩ := smallBoot_new 0x10000
  have hfree : ∀ a, stackBottom ≤ a → a < stackTop → s.view process.cr3 a = none := by
    intro a _ ha
    have htop : stackTop = 0x7fffffffe000 := rfl
    have hv : (UInt64.ofNat a).toNat = a := Word.toNat_ofNat_of_lt (by omega)
    rw [← hv, view_eq_none_iff (by omega)]
    exact hempty _
  obtain ⟨process', s', args, env, h, -, -, hlayout⟩ := buildUserStack_layout
    (show initArgv.length ≤ 31 by decide) (show initEnvp.length ≤ 31 by decide) (by decide) (by decide) hpool hsep
    hfree (by omega)
  exact ⟨process, s, process', s', args, env, hnew, h, hlayout⟩

end Xbks
