import Coping.Ai.Arguments

/-!
# The arguments that are left to `getopt`

The scan compacts `argv` in place. What is left of it is the arguments that are no options of
its own, and a second scan leaves everything as it is.
-/

namespace Coping.Arguments

/-- What one or two arguments say to the scan. -/
inductive Word where
  | noContext
  | mechanism (name : List UInt8)
  | other (arg : CString)

def word (arg : CString) : Word :=
  if arg.bytes = noContextFlag then .noContext
  else if mechanismPrefix <+: arg.bytes then
    .mechanism (arg.bytes.drop mechanismPrefix.length)
  else .other arg

/-- The argument behind `--mechanism` is a name, whatever it looks like. -/
def words : List CString → List Word
  | [] => []
  | [arg] => [word arg]
  | arg :: next :: rest =>
      if arg.bytes = mechanismFlag then .mechanism next.bytes :: words rest
      else word arg :: words (next :: rest)

def Word.kept : Word → List CString
  | .other arg => [arg]
  | _ => []

def Word.named : Word → List (List UInt8)
  | .mechanism name => [name]
  | _ => []

def Word.isNoContext : Word → Bool
  | .noContext => true
  | _ => false

/-- The arguments that are no options of the scan. -/
def kept (args : List CString) : List CString := (words args).flatMap Word.kept

def mechanisms (args : List CString) : List (List UInt8) := (words args).flatMap Word.named

/-- A name that is cut to 63 bytes, and zeros up to the end of its slot. -/
def padded (name : List UInt8) : List UInt8 :=
  name.take (COPING_MECH_NAMELEN - 1) ++
    List.replicate (COPING_MECH_NAMELEN - (name.take (COPING_MECH_NAMELEN - 1)).length) 0

/-- The slots hold the first names, and the others are zero. -/
structure Named (config : CopingConfig) (names : List (List UInt8)) : Prop where
  count : config.mechanismCount = min COPING_MAX_MECHS names.length
  slots : ∀ slot : Fin COPING_MAX_MECHS, ∀ name, names[slot.val]? = some name →
    (config.mechanismNames slot).bytes = padded name
  free : ∀ slot : Fin COPING_MAX_MECHS, names.length ≤ slot.val →
    config.mechanismNames slot = CBuffer.zero

/-- No argument is read at or before an index that has been written. -/
def Unread (accesses : List ArgvAccess) : Prop :=
  accesses.Pairwise fun first later => ∀ i j, first = .write i → later = .read j → i < j

/-- What the scan of a program's arguments leaves. -/
structure Filtered (program : CString) (args : List CString) (s : PreScan) : Prop where
  length : s.argv.length = args.length + 2
  argc : s.newArgc = (kept args).length + 1
  argv : s.argv.take (s.newArgc + 1) = some program :: (kept args).map some ++ [none]
  noContext : s.config.noContext = (words args).any Word.isNoContext
  names : Named s.config (mechanisms args)
  texts : ∀ slot : Fin COPING_MAX_MECHS, ∀ name, (mechanisms args)[slot.val]? = some name →
    (s.config.mechanismNames slot).Holds (name.take (COPING_MECH_NAMELEN - 1))
  unread : Unread s.accesses

section Words

variable {arg next : CString} {rest args : List CString}

theorem mechanismFlag_plain (flag : arg.bytes = mechanismFlag) :
    arg.bytes ≠ noContextFlag ∧ ¬mechanismPrefix <+: arg.bytes := by
  constructor
  · rw [flag]
    decide
  · intro hfront
    rw [flag] at hfront
    exact absurd hfront.length_le (by decide)

theorem words_cons (single : arg.bytes ≠ mechanismFlag ∨ rest = []) :
    words (arg :: rest) = word arg :: words rest := by
  cases rest with
  | nil => rfl
  | cons next rest => rw [words, if_neg (single.resolve_right (List.cons_ne_nil next rest))]

theorem words_pair (flag : arg.bytes = mechanismFlag) :
    words (arg :: next :: rest) = .mechanism next.bytes :: words rest := by
  rw [words, if_pos flag]

theorem kept_cons (single : arg.bytes ≠ mechanismFlag ∨ rest = []) :
    kept (arg :: rest) = (word arg).kept ++ kept rest := by
  rw [kept, words_cons single, List.flatMap_cons, kept]

theorem kept_pair (flag : arg.bytes = mechanismFlag) : kept (arg :: next :: rest) = kept rest := by
  rw [kept, words_pair flag, List.flatMap_cons, kept]
  rfl

theorem mechanisms_cons (single : arg.bytes ≠ mechanismFlag ∨ rest = []) :
    mechanisms (arg :: rest) = (word arg).named ++ mechanisms rest := by
  rw [mechanisms, words_cons single, List.flatMap_cons, mechanisms]

theorem mechanisms_pair (flag : arg.bytes = mechanismFlag) :
    mechanisms (arg :: next :: rest) = next.bytes :: mechanisms rest := by
  rw [mechanisms, words_pair flag, List.flatMap_cons, mechanisms]
  rfl

theorem kept_word (arg : CString) : (word arg).kept = [] ∨
    (word arg).kept = [arg] ∧ word arg = .other arg := by
  rw [word]
  split
  · exact .inl rfl
  · split
    · exact .inl rfl
    · exact .inr ⟨rfl, rfl⟩

/-- What is kept is an argument that stands for itself. -/
theorem words_kept : ∀ args : List CString, words (kept args) = (kept args).map Word.other
  | [] => rfl
  | arg :: rest => by
      by_cases hsingle : arg.bytes ≠ mechanismFlag ∨ rest = []
      · rw [kept_cons hsingle]
        obtain hnone | ⟨hkept, hother⟩ := kept_word arg
        · rw [hnone, List.nil_append]
          exact words_kept rest
        · have hsingle' : arg.bytes ≠ mechanismFlag ∨ kept rest = [] := by
            obtain hflag | rfl := hsingle
            · exact .inl hflag
            · exact .inr rfl
          rw [hkept, List.singleton_append, words_cons hsingle', words_kept rest, hother,
            List.map_cons]
      · obtain ⟨hflag, hrest⟩ := not_or.mp hsingle
        obtain ⟨next, rest, rfl⟩ := List.exists_cons_of_ne_nil hrest
        rw [kept_pair (not_not.mp hflag)]
        exact words_kept rest

theorem kept_kept (args : List CString) : kept (kept args) = kept args := by
  rw [kept, words_kept, List.flatMap_map]
  exact List.flatMap_singleton' (kept args)

theorem mechanisms_kept (args : List CString) : mechanisms (kept args) = [] := by
  rw [mechanisms, words_kept, List.flatMap_map]
  exact List.flatMap_eq_nil_iff.mpr fun _ _ => rfl

theorem isNoContext_kept (args : List CString) :
    (words (kept args)).any Word.isNoContext = false := by
  rw [words_kept, List.any_map]
  exact List.any_eq_false.mpr fun _ _ => Bool.false_ne_true

theorem length_kept_le : ∀ args : List CString, (kept args).length ≤ args.length
  | [] => Nat.le_refl 0
  | arg :: rest => by
      by_cases hsingle : arg.bytes ≠ mechanismFlag ∨ rest = []
      · have hrest := length_kept_le rest
        rw [kept_cons hsingle, List.length_append, List.length_cons]
        obtain hnone | ⟨hkept, -⟩ := kept_word arg
        · rw [hnone, List.length_nil]
          omega
        · rw [hkept, List.length_singleton]
          omega
      · obtain ⟨hflag, hrest⟩ := not_or.mp hsingle
        obtain ⟨next, rest, rfl⟩ := List.exists_cons_of_ne_nil hrest
        rw [kept_pair (not_not.mp hflag), List.length_cons, List.length_cons]
        exact Nat.le_trans (length_kept_le rest) (Nat.le_add_right _ 2)

theorem mechanisms_nonzero : ∀ {args : List CString}, ∀ name ∈ mechanisms args, 0 ∉ name
  | [] => fun name mem => by cases mem
  | arg :: rest => by
      intro name hname
      by_cases hsingle : arg.bytes ≠ mechanismFlag ∨ rest = []
      · rw [mechanisms_cons hsingle] at hname
        obtain hname | hname := List.mem_append.mp hname
        · rw [word] at hname
          split at hname
          · cases hname
          · split at hname
            · rw [List.mem_singleton.mp hname]
              exact fun hzero => arg.nonzero (List.mem_of_mem_drop hzero)
            · cases hname
        · exact mechanisms_nonzero name hname
      · obtain ⟨hflag, hrest⟩ := not_or.mp hsingle
        obtain ⟨next, rest, rfl⟩ := List.exists_cons_of_ne_nil hrest
        rw [mechanisms_pair (not_not.mp hflag)] at hname
        obtain rfl | hname := List.mem_cons.mp hname
        · exact next.nonzero
        · exact mechanisms_nonzero name hname

end Words

section Names

variable {config : CopingConfig} {names : List (List UInt8)} {name : List UInt8}

theorem named_start (noContext : Bool) : Named { noContext := noContext } [] where
  count := rfl
  slots slot name hname := by cases hname
  free _ _ := rfl

theorem addMechanism_slot {slot : Fin COPING_MAX_MECHS} {copied : CBuffer COPING_MECH_NAMELEN}
    (next : slot.val = config.mechanismCount)
    (copy : (config.mechanismNames slot).strncpy name (COPING_MECH_NAMELEN - 1) = some copied) :
    config.addMechanism name = some { config with
      mechanismCount := config.mechanismCount + 1
      mechanismNames := Function.update config.mechanismNames slot copied } := by
  have hfree : config.mechanismCount < COPING_MAX_MECHS := next ▸ slot.isLt
  obtain rfl : slot = ⟨config.mechanismCount, hfree⟩ := Fin.ext next
  rw [CopingConfig.addMechanism, dif_pos hfree, copy]
  rfl

/-- A name behind the last slot is dropped. -/
theorem Named.add (h : Named config names) (name : List UInt8) :
    ∃ config', config.addMechanism name = some config' ∧
      config'.noContext = config.noContext ∧ Named config' (names ++ [name]) := by
  have hlength : (names ++ [name]).length = names.length + 1 := List.length_append
  have hcount := h.count
  by_cases hfree : config.mechanismCount < COPING_MAX_MECHS
  · have hnext : config.mechanismCount = names.length := by omega
    obtain ⟨slot, hslot⟩ : ∃ slot : Fin COPING_MAX_MECHS, slot.val = names.length :=
      ⟨⟨names.length, hnext ▸ hfree⟩, rfl⟩
    have hzero := h.free slot (Nat.le_of_eq hslot.symm)
    obtain ⟨copied, hcopied, hbytes⟩ := CBuffer.strncpy_zero name
      (Nat.sub_le COPING_MECH_NAMELEN 1)
    refine ⟨_, addMechanism_slot (hslot.trans hnext.symm) (hzero ▸ hcopied), rfl, ?_⟩
    constructor
    case count =>
      change config.mechanismCount + 1 = _
      omega
    case slots =>
      intro other old hold
      change (Function.update config.mechanismNames slot copied other).bytes = _
      by_cases hlast : other = slot
      · rw [hlast, hslot, List.getElem?_append_right (Nat.le_refl _), Nat.sub_self] at hold
        obtain rfl := Option.some.inj hold
        rw [hlast, Function.update_self]
        exact hbytes
      · have hbefore : other.val < names.length := by
          have hlt : other.val < (names ++ [name]).length := (List.getElem?_eq_some_iff.mp hold).1
          have hne : other.val ≠ slot.val := fun heq => hlast (Fin.ext heq)
          omega
        rw [List.getElem?_append_left hbefore] at hold
        rw [Function.update_of_ne hlast]
        exact h.slots other old hold
    case free =>
      intro other hbehind
      have hother : other ≠ slot := by
        rintro rfl
        omega
      change Function.update config.mechanismNames slot copied other = _
      rw [Function.update_of_ne hother]
      exact h.free other (by omega)
  · have hmax : COPING_MAX_MECHS ≤ names.length := by omega
    refine ⟨config, dif_neg hfree, rfl, ?_⟩
    constructor
    case count => omega
    case slots =>
      intro slot old hold
      rw [List.getElem?_append_left (Nat.lt_of_lt_of_le slot.isLt hmax)] at hold
      exact h.slots slot old hold
    case free =>
      intro slot hbehind
      have hlt := slot.isLt
      omega

/-- Nothing but the names and the flag is in the configuration. -/
theorem Named.unique {config' : CopingConfig} (h : Named config names) (h' : Named config' names)
    (same : config'.noContext = config.noContext) : config' = config := by
  have hnames : config'.mechanismNames = config.mechanismNames := by
    funext slot
    cases hname : names[slot.val]? with
    | none =>
        have hfree := List.getElem?_eq_none_iff.mp hname
        rw [h.free slot hfree, h'.free slot hfree]
    | some name =>
        apply CBuffer.ext
        rw [h.slots slot name hname, h'.slots slot name hname]
  have hcount : config'.mechanismCount = config.mechanismCount := h'.count.trans h.count.symm
  cases config
  cases config'
  cases same
  cases hnames
  cases hcount
  rfl

theorem Named.holds (h : Named config names) {slot : Fin COPING_MAX_MECHS}
    (mem : names[slot.val]? = some name) (nonzero : 0 ∉ name) :
    (config.mechanismNames slot).Holds (name.take (COPING_MECH_NAMELEN - 1)) := by
  have hcut : (name.take (COPING_MECH_NAMELEN - 1)).length ≤ COPING_MECH_NAMELEN - 1 :=
    List.length_take_le _ _
  obtain ⟨n, hn⟩ : ∃ n, COPING_MECH_NAMELEN - (name.take (COPING_MECH_NAMELEN - 1)).length =
      n + 1 := by
    refine ⟨COPING_MECH_NAMELEN - 1 - (name.take (COPING_MECH_NAMELEN - 1)).length, ?_⟩
    rw [COPING_MECH_NAMELEN] at hcut ⊢
    omega
  have hbytes := h.slots slot name mem
  rw [padded, hn] at hbytes
  exact CBuffer.holds_of_padded hbytes fun hmem => nonzero (List.mem_of_mem_take hmem)

end Names

section Scan

variable {s : PreScan} {argc i : Nat} {arg next : CString} {rest : List CString}
variable {done back tail : List (Option CString)} {names : List (List UInt8)} {flag : Bool}

/-- The scan has come to `i`, and `rest` is to come. What it has kept is in `done`. -/
structure Scanning (argc i : Nat) (rest : List CString)
    (done back tail : List (Option CString)) (names : List (List UInt8)) (flag : Bool)
    (s : PreScan) : Prop where
  argc : argc = i + rest.length
  argv : s.argv = done ++ back
  newArgc : s.newArgc = done.length
  behind : done.length ≤ i
  left : s.argv.drop i = rest.map some ++ tail
  noContext : s.config.noContext = flag
  named : Named s.config names
  unread : Unread s.accesses
  written : ∀ j, ArgvAccess.write j ∈ s.accesses → j < done.length

theorem unread_read {accesses : List ArgvAccess} (h : Unread accesses)
    (written : ∀ j, ArgvAccess.write j ∈ accesses → j < i) : Unread (accesses ++ [.read i]) := by
  refine List.pairwise_append.mpr ⟨h, List.pairwise_singleton _ _, ?_⟩
  rintro first hfirst later hlater j k rfl hread
  rw [List.mem_singleton.mp hlater] at hread
  obtain rfl := ArgvAccess.read.inj hread
  exact written j hfirst

theorem unread_write {accesses : List ArgvAccess} (h : Unread accesses) :
    Unread (accesses ++ [.write i]) := by
  refine List.pairwise_append.mpr ⟨h, List.pairwise_singleton _ _, ?_⟩
  rintro first - later hlater j k - rfl
  cases List.mem_singleton.mp hlater

theorem Scanning.left_next (h : Scanning argc i (arg :: rest) done back tail names flag s) :
    s.argv.drop (i + 1) = rest.map some ++ tail := by
  rw [← List.drop_drop, h.left]
  rfl

theorem Scanning.argument (h : Scanning argc i (arg :: rest) done back tail names flag s) :
    s.argument i = some arg := by
  have hhead : (s.argv.drop i)[0]? = some (some arg) := by
    rw [h.left]
    rfl
  rw [List.getElem?_drop, Nat.add_zero] at hhead
  rw [PreScan.argument, hhead, Option.join_some]

theorem Scanning.argument_next
    (h : Scanning argc i (arg :: next :: rest) done back tail names flag s) :
    s.argument (i + 1) = some next := by
  have hhead : (s.argv.drop (i + 1))[0]? = some (some next) := by
    rw [h.left_next]
    rfl
  rw [List.getElem?_drop, Nat.add_zero] at hhead
  rw [PreScan.argument, hhead, Option.join_some]

theorem Scanning.read (h : Scanning argc i rest done back tail names flag s) {j : Nat}
    (ahead : i ≤ j) :
    Scanning argc i rest done back tail names flag (s.record (.read j)) := by
  have hbehind := h.behind
  refine { h with unread := unread_read h.unread ?_, written := ?_ }
  · exact fun k hk => Nat.lt_of_lt_of_le (h.written k hk) (Nat.le_trans hbehind ahead)
  · intro k hk
    obtain hk | hk := List.mem_append.mp hk
    · exact h.written k hk
    · cases List.mem_singleton.mp hk

/-- An option is left out. -/
theorem Scanning.skip {config : CopingConfig} {names' : List (List UInt8)} {flag' : Bool}
    (h : Scanning argc i (arg :: rest) done back tail names flag s)
    (noContext : config.noContext = flag') (named : Named config names') :
    Scanning argc (i + 1) rest done back tail names' flag' { s with config := config } where
  argc := by rw [h.argc, List.length_cons, Nat.add_right_comm, Nat.add_assoc]
  argv := h.argv
  newArgc := h.newArgc
  behind := Nat.le_trans h.behind (Nat.le_succ i)
  left := h.left_next
  noContext := noContext
  named := named
  unread := h.unread
  written := h.written

/-- Another argument moves to the end of what is kept. -/
theorem Scanning.store (h : Scanning argc i (arg :: rest) done back tail names flag s) :
    ∃ s', s.store s.newArgc (some arg) = some s' ∧
      Scanning argc (i + 1) rest (done ++ [some arg]) (back.drop 1) tail names flag
        { s' with newArgc := s'.newArgc + 1 } := by
  have hbehind := h.behind
  have hlength := congrArg List.length h.left
  rw [List.length_drop, List.length_append, List.length_map, List.length_cons] at hlength
  have hinside : s.newArgc < s.argv.length := by
    rw [h.newArgc]
    omega
  refine ⟨_, if_pos hinside, ?_⟩
  constructor
  case argc => rw [h.argc, List.length_cons, Nat.add_right_comm, Nat.add_assoc]
  case argv =>
    have hback : back ≠ [] := by
      rintro rfl
      rw [h.argv, List.append_nil, h.newArgc] at hinside
      exact Nat.lt_irrefl _ hinside
    obtain ⟨b, back', rfl⟩ := List.exists_cons_of_ne_nil hback
    change s.argv.set s.newArgc (some arg) = _
    rw [h.argv, h.newArgc, List.set_append_right _ _ (Nat.le_refl _), Nat.sub_self,
      List.append_assoc]
    rfl
  case newArgc =>
    rw [List.length_append, ← h.newArgc]
    rfl
  case behind =>
    rw [List.length_append]
    exact Nat.succ_le_succ hbehind
  case left =>
    change (s.argv.set s.newArgc (some arg)).drop (i + 1) = _
    rw [List.drop_set_of_lt (by rw [h.newArgc]; omega), h.left_next]
  case noContext => exact h.noContext
  case named => exact h.named
  case unread => exact unread_write h.unread
  case written =>
    intro j hj
    rw [List.length_append, List.length_singleton]
    obtain hj | hj := List.mem_append.mp hj
    · exact Nat.lt_succ_of_lt (h.written j hj)
    · rw [ArgvAccess.write.inj (List.mem_singleton.mp hj), h.newArgc]
      exact Nat.lt_succ_self _

/-- An argument that stands for itself. -/
theorem Scanning.single (h : Scanning argc i (arg :: rest) done back tail names flag s)
    (single : arg.bytes ≠ mechanismFlag ∨ rest = []) :
    ∃ s', preScanLoop argc i s = preScanLoop argc (i + 1) s' ∧
      Scanning argc (i + 1) rest (done ++ (word arg).kept.map some)
        (back.drop (word arg).kept.length) tail (names ++ (word arg).named)
        (flag || (word arg).isNoContext) s' := by
  have hmore : i < argc := by
    rw [h.argc, List.length_cons]
    omega
  have hread := h.read (Nat.le_refl i)
  have hlast : ¬(arg.bytes = mechanismFlag ∧ i + 1 < argc) := by
    rintro ⟨hflag, hlt⟩
    rw [h.argc, single.resolve_left (not_not_intro hflag), List.length_singleton] at hlt
    exact Nat.lt_irrefl _ hlt
  rw [preScanLoop, if_pos hmore, h.argument, Option.bind_eq_bind, Option.bind_some]
  by_cases hcontext : arg.bytes = noContextFlag
  · have hword : word arg = .noContext := if_pos hcontext
    rw [if_pos hcontext, hword]
    refine ⟨_, rfl, ?_⟩
    change Scanning _ _ _ (done ++ []) back _ (names ++ []) (flag || true) _
    rw [List.append_nil, List.append_nil, Bool.or_true]
    exact hread.skip rfl ⟨hread.named.count, hread.named.slots, hread.named.free⟩
  rw [if_neg hcontext]
  by_cases hfront : mechanismPrefix <+: arg.bytes
  · have hword : word arg = .mechanism (arg.bytes.drop mechanismPrefix.length) := by
      rw [word, if_neg hcontext, if_pos hfront]
    obtain ⟨config', hadd, hflag, hnamed⟩ := hread.named.add (arg.bytes.drop mechanismPrefix.length)
    rw [if_pos hfront, hadd, hword, Option.bind_eq_bind, Option.bind_some]
    refine ⟨_, rfl, ?_⟩
    change Scanning _ _ _ (done ++ []) back _ _ (flag || false) _
    rw [List.append_nil, Bool.or_false]
    exact hread.skip (hflag.trans hread.noContext) hnamed
  · have hword : word arg = .other arg := by
      rw [word, if_neg hcontext, if_neg hfront]
    obtain ⟨s', hstore, hnext⟩ := hread.store
    rw [if_neg hfront, if_neg hlast, hstore, hword, Option.bind_eq_bind,
      Option.bind_some]
    refine ⟨_, rfl, ?_⟩
    change Scanning _ _ _ (done ++ [some arg]) (back.drop 1) _ (names ++ []) (flag || false) _
    rw [List.append_nil, Bool.or_false]
    exact hnext

/-- `--mechanism` and its name. -/
theorem Scanning.pair (h : Scanning argc i (arg :: next :: rest) done back tail names flag s)
    (mechanism : arg.bytes = mechanismFlag) :
    ∃ s', preScanLoop argc i s = preScanLoop argc (i + 2) s' ∧
      Scanning argc (i + 2) rest done back tail (names ++ [next.bytes]) flag s' := by
  have hmore : i < argc ∧ i + 1 < argc := by
    rw [h.argc, List.length_cons, List.length_cons]
    omega
  have hread := h.read (Nat.le_refl i)
  obtain ⟨hcontext, hfront⟩ := mechanismFlag_plain mechanism
  obtain ⟨config', hadd, hflag, hnamed⟩ := hread.named.add next.bytes
  rw [preScanLoop, if_pos hmore.1, h.argument, Option.bind_eq_bind, Option.bind_some,
    if_neg hcontext, if_neg hfront, if_pos ⟨mechanism, hmore.2⟩]
  by_cases hfree : (s.record (.read i)).config.mechanismCount < COPING_MAX_MECHS
  · have hboth := hread.read (Nat.le_succ i)
    rw [if_pos hfree, hread.argument_next, Option.bind_eq_bind, Option.bind_some]
    change ∃ s', (((s.record (.read i)).config.addMechanism next.bytes).bind _) = _ ∧ _
    rw [hadd, Option.bind_some]
    exact ⟨_, rfl, (hboth.skip rfl hboth.named).skip (hflag.trans hread.noContext) hnamed⟩
  · rw [CopingConfig.addMechanism, dif_neg hfree] at hadd
    obtain rfl := Option.some.inj hadd
    rw [if_neg hfree]
    exact ⟨_, rfl, (hread.skip rfl hread.named).skip hread.noContext hnamed⟩

/-- The loop comes to the end of the arguments. -/
theorem Scanning.run : ∀ {rest : List CString} {i : Nat} {done back : List (Option CString)}
    {names : List (List UInt8)} {flag : Bool} {s : PreScan},
    Scanning argc i rest done back tail names flag s →
    ∃ s', preScanLoop argc i s = some s' ∧
      Scanning argc argc [] (done ++ (kept rest).map some) (back.drop (kept rest).length) tail
        (names ++ mechanisms rest) (flag || (words rest).any Word.isNoContext) s'
  | [], i, done, back, names, flag, s, h => by
      obtain rfl : argc = i := h.argc
      refine ⟨s, ?_, ?_⟩
      · rw [preScanLoop, if_neg (Nat.lt_irrefl _)]
      · change Scanning _ _ _ (done ++ []) back _ (names ++ []) (flag || false) _
        rw [List.append_nil, List.append_nil, Bool.or_false]
        exact h
  | arg :: rest, i, done, back, names, flag, s, h => by
      by_cases hsingle : arg.bytes ≠ mechanismFlag ∨ rest = []
      · obtain ⟨s', hstep, hnext⟩ := h.single hsingle
        obtain ⟨s'', hrun, hend⟩ := hnext.run
        refine ⟨s'', hstep.trans hrun, ?_⟩
        rw [kept_cons hsingle, mechanisms_cons hsingle, words_cons hsingle, List.any_cons,
          List.map_append, List.length_append, ← List.drop_drop, ← List.append_assoc,
          ← List.append_assoc, ← Bool.or_assoc]
        exact hend
      · obtain ⟨hflag, hrest⟩ := not_or.mp hsingle
        have hflag' := not_not.mp hflag
        obtain ⟨next, rest, rfl⟩ := List.exists_cons_of_ne_nil hrest
        obtain ⟨s', hstep, hnext⟩ := h.pair hflag'
        obtain ⟨s'', hrun, hend⟩ := hnext.run
        refine ⟨s'', hstep.trans hrun, ?_⟩
        rw [kept_pair hflag', mechanisms_pair hflag', words_pair hflag', List.any_cons,
          List.append_cons]
        exact hend

/-- The scan of an array in which anything may follow the arguments. -/
theorem preScan_spec {config : CopingConfig} {names : List (List UInt8)} (program : CString)
    (args : List CString) {tail : List (Option CString)} (nonempty : tail ≠ [])
    (named : Named config names) :
    ∃ s, preScan (args.length + 1) (some program :: args.map some ++ tail) config = some s ∧
      s.newArgc = (kept args).length + 1 ∧
      s.argv = some program :: (kept args).map some ++
        ((args.map some ++ tail).drop (kept args).length).set 0 none ∧
      s.config.noContext = (config.noContext || (words args).any Word.isNoContext) ∧
      Named s.config (names ++ mechanisms args) ∧ Unread s.accesses := by
  have hstart : Scanning (args.length + 1) 1 args [some program] (args.map some ++ tail) tail names
      config.noContext { argv := some program :: args.map some ++ tail, config := config } := by
    constructor
    case argc => exact Nat.add_comm _ _
    case argv => rfl
    case newArgc => rfl
    case behind => exact Nat.le_refl 1
    case left => rfl
    case noContext => rfl
    case named => exact named
    case unread => exact List.Pairwise.nil
    case written =>
      intro j hj
      cases hj
  obtain ⟨s, hrun, hend⟩ := hstart.run
  have hargc : s.newArgc = (kept args).length + 1 := by
    rw [hend.newArgc, List.length_append, List.length_map, Nat.add_comm]
    rfl
  have hinside : s.newArgc < s.argv.length := by
    have hleft := congrArg List.length hend.left
    have htail := List.length_pos_of_ne_nil nonempty
    have hkept := length_kept_le args
    rw [List.length_drop, List.map_nil, List.nil_append] at hleft
    omega
  have hstore : preScan (args.length + 1) (some program :: args.map some ++ tail) config =
      some { s.record (.write s.newArgc) with argv := s.argv.set s.newArgc none } := by
    rw [preScan, hrun]
    exact if_pos hinside
  refine ⟨_, hstore, hargc, ?_, hend.noContext, hend.named, unread_write hend.unread⟩
  change s.argv.set s.newArgc none = _
  rw [hend.argv, List.set_append_right _ _ (Nat.le_of_eq hend.newArgc.symm), hend.newArgc,
    Nat.sub_self]
  rfl

end Scan

/-- The scan keeps the other arguments in their order, and a second scan changes nothing. -/
theorem prescan_filters (program : CString) (args : List CString) :
    ∃ s, preScan (args.length + 1) (some program :: args.map some ++ [none]) {} = some s ∧
      Filtered program args s ∧
      ∃ s', preScan s.newArgc s.argv s.config = some s' ∧
        s'.newArgc = s.newArgc ∧ s'.argv = s.argv ∧ s'.config = s.config := by
  obtain ⟨s, hscan, hargc, hargv, hflag, hnamed, hunread⟩ :=
    preScan_spec program args (List.cons_ne_nil none []) (named_start false)
  have hkept := length_kept_le args
  obtain ⟨last, behind, hlast⟩ : ∃ last behind,
      (args.map some ++ [none]).drop (kept args).length = last :: behind := by
    apply List.exists_cons_of_ne_nil
    intro hnil
    have hlength := congrArg List.length hnil
    rw [List.length_drop, List.length_append, List.length_map, List.length_singleton,
      List.length_nil] at hlength
    omega
  rw [hlast, List.set_cons_zero] at hargv
  refine ⟨s, hscan, ?_, ?_⟩
  · constructor
    case length =>
      have hlength := congrArg List.length hlast
      rw [List.length_drop, List.length_append, List.length_map, List.length_singleton,
        List.length_cons] at hlength
      rw [hargv, List.length_append, List.length_cons, List.length_cons, List.length_map]
      omega
    case argc => exact hargc
    case argv =>
      have hsplit : s.argv = (some program :: (kept args).map some ++ [none]) ++ behind := by
        rw [hargv, List.append_assoc]
        rfl
      have hcount : s.newArgc + 1 = (some program :: (kept args).map some ++ [none]).length := by
        rw [hargc, List.length_append, List.length_cons, List.length_map, List.length_singleton]
      rw [hsplit, hcount, List.take_left]
    case noContext => exact hflag
    case names => exact hnamed
    case texts =>
      intro slot name hname
      exact hnamed.holds hname (mechanisms_nonzero name (List.mem_of_getElem? hname))
    case unread => exact hunread
  · -- All that is left are arguments that stand for themselves.
    obtain ⟨s', hscan', hargc', hargv', hflag', hnamed', -⟩ :=
      preScan_spec program (kept args) (List.cons_ne_nil none behind) hnamed
    have hbehind : ((kept args).map some ++ none :: behind).drop (kept args).length =
        none :: behind := by
      have hcount : (kept args).length = ((kept args).map some).length := by
        rw [List.length_map]
      rw [hcount, List.drop_left]
    rw [kept_kept] at hargc' hargv'
    rw [hbehind, List.set_cons_zero] at hargv'
    rw [isNoContext_kept, Bool.or_false] at hflag'
    rw [mechanisms_kept, List.append_nil] at hnamed'
    refine ⟨s', ?_, hargc'.trans hargc.symm, hargv'.trans hargv.symm,
      hnamed.unique hnamed' hflag'⟩
    rw [hargc, hargv]
    exact hscan'

end Coping.Arguments
