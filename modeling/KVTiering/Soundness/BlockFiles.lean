import KVTiering.Data.Lists
import KVTiering.Machine.Run
import KVTiering.Model.BlockFiles

/-! # No partial block is ever seen

A temporary path belongs to one thread, and is never the path of a block. So the file that a store writes is named
by nothing else until the store renames it, and by then it holds a complete block; afterwards nobody writes to it.
A load reads a file that was under a block path when it was opened.
-/

namespace KVTiering.Soundness

open Model

namespace BlockFiles

open Model.BlockFiles

/-! ## Paths -/

theorem toList_tmpPath (path : BlockPath) (number : ℕ) : (path.tmpPath number).toList =
    path.name.toList ++ '_' :: Nat.toDigits 10 number ++ ".tmp".toList := by
  simp [BlockPath.tmpPath, tmpSuffix]

theorem name_ne_tmpPath (path other : BlockPath) (number : ℕ) : path.name ≠ other.tmpPath number := by
  intro same
  have ends := congrArg (fun name => name.toList.getLast?) same
  simp only [toList_tmpPath, BlockPath.name, String.toList_append, List.getLast?_append] at ends
  cases ends

theorem name_injective {path other : BlockPath} (same : path.name = other.name) : path = other := by
  have stems := congrArg String.toList same
  simp only [BlockPath.name, String.toList_append] at stems
  cases path
  cases other
  exact congrArg BlockPath.mk (String.toList_inj.mp (List.append_cancel_right stems))

/-- A temporary path names its block and its thread. -/
theorem tmpPath_injective {path other : BlockPath} {number number' : ℕ}
    (same : path.tmpPath number = other.tmpPath number') : path = other ∧ number = number' := by
  have lists := congrArg String.toList same
  rw [toList_tmpPath, toList_tmpPath] at lists
  obtain ⟨names, digits⟩ := append_cons_inj Nat.underscore_not_in_toDigits Nat.underscore_not_in_toDigits
    (List.append_cancel_right lists)
  refine ⟨name_injective (String.toList_inj.mp names), ?_⟩
  rw [← Nat.ofDigitChars_ten_toDigits (n := number), digits, Nat.ofDigitChars_ten_toDigits]

/-! ## The invariant -/

variable {ι β : Type}

/-- A path names at most one file, and every block path a file with a complete block. -/
structure Files (blockSize : ℕ) (s : BlockFiles ι β) : Prop where
  fresh : ∀ path file, s.paths path = some file → file < s.nextFile
  distinct : ∀ path other file, s.paths path = some file → s.paths other = some file → path = other
  complete : ∀ (path : BlockPath) (file : ℕ), s.paths path.name = some file → (path, s.contents file) ∈ s.taken
  bounded : ∀ entry ∈ s.taken, entry.2.length ≤ blockSize

/-- What a thread relies on between its system calls. -/
def Ok (number : ι → ℕ) (s : BlockFiles ι β) (thread : ι) : BlockThread β → Prop
  | .storing call (.write fd) => s.paths (call.path.tmpPath (number thread)) = some fd ∧ s.contents fd = []
  | .storing call (.close fd whole) => whole = true →
      s.paths (call.path.tmpPath (number thread)) = some fd ∧ (call.path, s.contents fd) ∈ s.taken
  | .storing call .replace => ∃ fd, s.paths (call.path.tmpPath (number thread)) = some fd ∧
      (call.path, s.contents fd) ∈ s.taken
  | .loading call (.readv fd) => (call.path, s.contents fd) ∈ s.taken ∧ fd < s.nextFile ∧
      ∀ (other : ι) (path : BlockPath), s.paths (path.tmpPath (number other)) ≠ some fd
  | _ => True

structure Sound (number : ι → ℕ) (blockSize : ℕ) (s : BlockFiles ι β) : Prop where
  files : Files blockSize s
  threads : ∀ thread, Ok number s thread (s.threads thread)

/-- A change of the files that keeps all that a thread may rely on. -/
structure Leaves (number : ι → ℕ) (thread : ι) (s s' : BlockFiles ι β) : Prop where
  nextFile : s.nextFile ≤ s'.nextFile
  taken : ∀ entry ∈ s.taken, entry ∈ s'.taken
  temporary : ∀ path : BlockPath, s'.paths (path.tmpPath (number thread)) = s.paths (path.tmpPath (number thread))
  written : ∀ (path : BlockPath) (fd : ℕ), s.paths (path.tmpPath (number thread)) = some fd →
    s'.contents fd = s.contents fd
  settled : ∀ fd < s.nextFile, (∀ (other : ι) (path : BlockPath), s.paths (path.tmpPath (number other)) ≠ some fd) →
    s'.contents fd = s.contents fd ∧
      ∀ (other : ι) (path : BlockPath), s'.paths (path.tmpPath (number other)) ≠ some fd

variable {number : ι → ℕ} {blockSize : ℕ} {s s' : BlockFiles ι β} {thread : ι}

theorem Leaves.refl (s : BlockFiles ι β) : Leaves number thread s s :=
  ⟨le_rfl, fun _ member => member, fun _ => rfl, fun _ _ _ => rfl, fun _ _ apart => ⟨rfl, apart⟩⟩

theorem Ok.leaves {place : BlockThread β} (ok : Ok number s thread place) (leaves : Leaves number thread s s') :
    Ok number s' thread place := by
  unfold Ok at ok ⊢
  split at ok
  · obtain ⟨linked, empty⟩ := ok
    exact ⟨(leaves.temporary _).trans linked, (leaves.written _ _ linked).trans empty⟩
  · intro whole
    obtain ⟨linked, complete⟩ := ok whole
    refine ⟨(leaves.temporary _).trans linked, leaves.taken _ ?_⟩
    rwa [leaves.written _ _ linked]
  · obtain ⟨fd, linked, complete⟩ := ok
    refine ⟨fd, (leaves.temporary _).trans linked, leaves.taken _ ?_⟩
    rwa [leaves.written _ _ linked]
  · obtain ⟨complete, old, apart⟩ := ok
    obtain ⟨same, apart'⟩ := leaves.settled _ old apart
    refine ⟨leaves.taken _ ?_, old.trans_le leaves.nextFile, apart'⟩
    rwa [same]
  · trivial

/-! ## Changes of the files -/

theorem Files.create (files : Files blockSize s) {path : BlockPath} (number : ℕ) :
    Files blockSize (s.create (path.tmpPath number)) := by
  have old : ∀ name file, name ≠ path.tmpPath number → (s.create (path.tmpPath number)).paths name = some file →
      s.paths name = some file ∧ file < s.nextFile := by
    intro name file differ found
    dsimp only [Model.BlockFiles.create] at found
    rw [Function.update_of_ne differ] at found
    exact ⟨found, files.fresh name file found⟩
  have new : ∀ file, (s.create (path.tmpPath number)).paths (path.tmpPath number) = some file → file = s.nextFile := by
    intro file found
    dsimp only [Model.BlockFiles.create] at found
    rw [Function.update_self] at found
    exact (Option.some.inj found).symm
  refine ⟨fun name file found => ?_, fun name other file found found' => ?_, fun block file found => ?_, files.bounded⟩
  · rcases eq_or_ne name (path.tmpPath number) with rfl | differ
    · rw [new file found]
      exact Nat.lt_succ_self _
    · exact (old name file differ found).2.trans (Nat.lt_succ_self _)
  · rcases eq_or_ne name (path.tmpPath number) with rfl | differ
    · rcases eq_or_ne other (path.tmpPath number) with rfl | differ'
      · rfl
      · have before := (old other file differ' found').2
        rw [new file found] at before
        exact absurd before (lt_irrefl _)
    · rcases eq_or_ne other (path.tmpPath number) with rfl | differ'
      · have before := (old name file differ found).2
        rw [new file found'] at before
        exact absurd before (lt_irrefl _)
      · exact files.distinct name other file (old name file differ found).1 (old other file differ' found').1
  · obtain ⟨found, before⟩ := old _ file (name_ne_tmpPath block path number) found
    change (block, Function.update s.contents s.nextFile [] file) ∈ s.taken
    rw [Function.update_of_ne before.ne]
    exact files.complete block file found

theorem Leaves.create (files : Files blockSize s) (distinct : Function.Injective number) {other : ι}
    (differ : other ≠ thread) (path : BlockPath) :
    Leaves number other s (s.create (path.tmpPath (number thread))) := by
  have apart : ∀ block : BlockPath, block.tmpPath (number other) ≠ path.tmpPath (number thread) :=
    fun block same => differ (distinct (tmpPath_injective same).2)
  refine ⟨Nat.le_succ _, fun _ member => member, fun block => ?_, fun block fd linked => ?_, fun fd old apart => ?_⟩
  · exact Function.update_of_ne (apart block) _ _
  · exact Function.update_of_ne (files.fresh _ fd linked).ne _ _
  · refine ⟨Function.update_of_ne old.ne _ _, fun third block linked => ?_⟩
    dsimp only [Model.BlockFiles.create] at linked
    rcases eq_or_ne (block.tmpPath (number third)) (path.tmpPath (number thread)) with same | differ
    · rw [same, Function.update_self] at linked
      exact old.ne (Option.some.inj linked).symm
    · rw [Function.update_of_ne differ] at linked
      exact apart third block linked

theorem remove_eq {name : String} (removed : s.remove name = some s') :
    s' = { s with paths := Function.update s.paths name none } := by
  obtain ⟨-, same⟩ := Option.ite_none_right_eq_some.mp removed
  exact (Option.some.inj same).symm

/-- Removing a path leaves less to check. -/
theorem Files.remove (files : Files blockSize s) {name : String} (removed : s.remove name = some s') :
    Files blockSize s' := by
  obtain rfl := remove_eq removed
  have old : ∀ path file, Function.update s.paths name none path = some file → s.paths path = some file := by
    intro path file found
    rcases eq_or_ne path name with rfl | differ
    · rw [Function.update_self] at found
      cases found
    · rwa [Function.update_of_ne differ] at found
  exact ⟨fun path file found => files.fresh path file (old path file found),
    fun path other file found found' => files.distinct path other file (old path file found) (old other file found'),
    fun path file found => files.complete path file (old path.name file found), files.bounded⟩

theorem Leaves.remove {other : ι} {name : String} (apart : ∀ path : BlockPath, path.tmpPath (number other) ≠ name)
    (removed : s.remove name = some s') : Leaves number other s s' := by
  obtain rfl := remove_eq removed
  refine ⟨le_rfl, fun _ member => member, fun path => Function.update_of_ne (apart path) _ _, fun _ _ _ => rfl,
    fun fd _ apart => ⟨rfl, fun third path linked => ?_⟩⟩
  dsimp only at linked
  rcases eq_or_ne (path.tmpPath (number third)) name with rfl | differ
  · rw [Function.update_self] at linked
    cases linked
  · rw [Function.update_of_ne differ] at linked
    exact apart third path linked

/-- The file of a temporary path becomes that of its block. -/
theorem Files.rename (files : Files blockSize s) {path : BlockPath} {number fd : ℕ}
    (linked : s.paths (path.tmpPath number) = some fd) (complete : (path, s.contents fd) ∈ s.taken)
    (renamed : s.rename (path.tmpPath number) path.name = some s') : Files blockSize s' := by
  rw [Model.BlockFiles.rename, linked] at renamed
  obtain rfl := Option.some.inj renamed
  have origin : ∀ name file, Function.update (Function.update s.paths (path.tmpPath number) none) path.name (some fd)
      name = some file → name = path.name ∧ file = fd ∨
        name ≠ path.name ∧ name ≠ path.tmpPath number ∧ s.paths name = some file := by
    intro name file found
    rcases eq_or_ne name path.name with rfl | differ
    · rw [Function.update_self] at found
      exact .inl ⟨rfl, (Option.some.inj found).symm⟩
    · rw [Function.update_of_ne differ] at found
      rcases eq_or_ne name (path.tmpPath number) with rfl | differ'
      · rw [Function.update_self] at found
        cases found
      · rw [Function.update_of_ne differ'] at found
        exact .inr ⟨differ, differ', found⟩
  refine ⟨fun name file found => ?_, fun name other file found found' => ?_, fun block file found => ?_, files.bounded⟩
  · rcases origin name file found with ⟨rfl, rfl⟩ | ⟨-, -, old⟩
    · exact files.fresh _ _ linked
    · exact files.fresh _ _ old
  · rcases origin name file found with ⟨rfl, rfl⟩ | ⟨-, apart, old⟩
    · rcases origin other _ found' with ⟨rfl, -⟩ | ⟨-, apart, old⟩
      · rfl
      · exact absurd (files.distinct _ _ _ old linked) apart
    · rcases origin other _ found' with ⟨-, rfl⟩ | ⟨-, -, old'⟩
      · exact absurd (files.distinct _ _ _ old linked) apart
      · exact files.distinct _ _ _ old old'
  · rcases origin _ file found with ⟨same, rfl⟩ | ⟨-, -, old⟩
    · rw [name_injective same]
      exact complete
    · exact files.complete block file old

theorem Leaves.rename (distinct : Function.Injective number) {other : ι} (differ : other ≠ thread) {path : BlockPath}
    (renamed : s.rename (path.tmpPath (number thread)) path.name = some s') : Leaves number other s s' := by
  obtain ⟨file, linked, rfl⟩ := Option.map_eq_some_iff.mp renamed
  refine ⟨le_rfl, fun _ member => member, fun block => ?_, fun _ _ _ => rfl, fun fd _ apart => ⟨rfl, ?_⟩⟩
  · dsimp only
    rw [Function.update_of_ne (name_ne_tmpPath _ _ _).symm,
      Function.update_of_ne fun same => differ (distinct (tmpPath_injective same).2)]
  · intro third block
    dsimp only
    rw [Function.update_of_ne (name_ne_tmpPath _ _ _).symm]
    rcases eq_or_ne (block.tmpPath (number third)) (path.tmpPath (number thread)) with same | differ
    · rw [same, Function.update_self]
      exact nofun
    · rw [Function.update_of_ne differ]
      exact apart third block

theorem Files.writeBlock (files : Files blockSize s) {call : BlockCall β} {number fd : ℕ}
    (linked : s.paths (call.path.tmpPath number) = some fd) (transferred : ℕ) :
    Files blockSize (s.writeBlock blockSize call fd transferred) := by
  refine ⟨files.fresh, files.distinct, fun path file found => ?_, fun entry member => ?_⟩
  · have apart : file ≠ fd := by
      rintro rfl
      exact name_ne_tmpPath _ _ _ (files.distinct _ _ _ found linked)
    dsimp only [Model.BlockFiles.writeBlock] at found ⊢
    rw [Function.update_of_ne apart]
    exact List.mem_cons_of_mem _ (files.complete path file found)
  · rcases List.mem_cons.mp member with rfl | old
    · dsimp only [slice]
      rw [length_readAt]
      exact min_le_left _ _
    · exact files.bounded entry old

theorem Leaves.writeBlock (files : Files blockSize s) (distinct : Function.Injective number) {other : ι}
    (differ : other ≠ thread) {call : BlockCall β} {fd : ℕ}
    (linked : s.paths (call.path.tmpPath (number thread)) = some fd) (transferred : ℕ) :
    Leaves number other s (s.writeBlock blockSize call fd transferred) := by
  refine ⟨le_rfl, fun _ => List.mem_cons_of_mem _, fun _ => rfl, fun path file linked' => ?_,
    fun file _ apart => ⟨?_, apart⟩⟩
  · refine Function.update_of_ne ?_ _ _
    rintro rfl
    exact differ (distinct (tmpPath_injective (files.distinct _ _ _ linked' linked)).2)
  · refine Function.update_of_ne ?_ _ _
    rintro rfl
    exact apart thread call.path linked

/-! ## What block paths hold -/

theorem holds_create (files : Files blockSize s) (path : BlockPath) (number : ℕ) (block : BlockPath) :
    (s.create (path.tmpPath number)).holds block = s.holds block := by
  dsimp only [holds, Model.BlockFiles.create]
  rw [Function.update_of_ne (name_ne_tmpPath _ _ _)]
  refine Option.map_congr fun file found => ?_
  exact Function.update_of_ne (files.fresh _ file found).ne _ _

theorem holds_writeBlock (files : Files blockSize s) {call : BlockCall β} {number fd : ℕ}
    (linked : s.paths (call.path.tmpPath number) = some fd) (transferred : ℕ) (block : BlockPath) :
    (s.writeBlock blockSize call fd transferred).holds block = s.holds block := by
  refine Option.map_congr fun file found => Function.update_of_ne ?_ _ _
  rintro rfl
  exact name_ne_tmpPath _ _ _ (files.distinct _ _ _ found linked)

theorem holds_removeTemporary {path : BlockPath} {number : ℕ} (removed : s.remove (path.tmpPath number) = some s')
    (block : BlockPath) : s'.holds block = s.holds block := by
  obtain rfl := remove_eq removed
  dsimp only [holds]
  rw [Function.update_of_ne (name_ne_tmpPath _ _ _)]

theorem threads_remove {name : String} (removed : s.remove name = some s') : s'.threads = s.threads := by
  obtain rfl := remove_eq removed
  rfl

theorem taken_remove {name : String} (removed : s.remove name = some s') : s'.taken = s.taken := by
  obtain rfl := remove_eq removed
  rfl

/-! ## Steps -/

/-- The files are changed for a thread that is about to be at a place. -/
structure Goes (number : ι → ℕ) (blockSize : ℕ) (thread : ι) (s s' : BlockFiles ι β) (place : BlockThread β) :
    Prop where
  files : Files blockSize s'
  threads : s'.threads = s.threads
  leaves : ∀ other, other ≠ thread → Leaves number other s s'
  ok : Ok number s' thread place

theorem Sound.goes (sound : Sound number blockSize s) {place : BlockThread β} (ok : Ok number s thread place) :
    Goes number blockSize thread s s place := ⟨sound.files, rfl, fun _ _ => .refl s, ok⟩

variable [DecidableEq ι]

theorem Sound.goto (sound : Sound number blockSize s) {place : BlockThread β}
    (goes : Goes number blockSize thread s s' place) : Sound number blockSize (s'.goto thread place) := by
  obtain ⟨fresh, distinct, complete, bounded⟩ := goes.files
  refine ⟨⟨fresh, distinct, complete, bounded⟩, fun other => ?_⟩
  rcases eq_or_ne other thread with rfl | differ
  · dsimp only [Model.BlockFiles.goto]
    rw [Function.update_self]
    exact goes.ok
  · dsimp only [Model.BlockFiles.goto]
    rw [Function.update_of_ne differ, goes.threads]
    exact ((sound.threads other).leaves (goes.leaves other differ) : Ok number s' other _)

/-- A step of `store_block` changes what block paths hold only if it makes the call return. -/
def StoreGoes (number : ι → ℕ) (blockSize : ℕ) (thread : ι) (call : BlockCall β) (s s' : BlockFiles ι β) : Prop :=
  ∃ middle place, s' = middle.goto thread place ∧ Goes number blockSize thread s middle place ∧
    (place = .returned ∨ (place = .raised ∨ ∃ point, place = .storing call point) ∧
      ∀ path, middle.holds path = s.holds path)

theorem storeStep_goes (sound : Sound number blockSize s) (distinct : Function.Injective number)
    {call : BlockCall β} {point : StorePoint} (here : s.threads thread = .storing call point) {outcome : SystemOutcome}
    (moved : s.storeStep number blockSize thread call point outcome = some s') :
    StoreGoes number blockSize thread call s s' := by
  have ok := sound.threads thread
  rw [here] at ok
  have stays : ∀ point', Ok number s thread (.storing call point') → s' = s.goto thread (.storing call point') →
      StoreGoes number blockSize thread call s s' :=
    fun point' ok same => ⟨s, _, same, sound.goes ok, .inr ⟨.inr ⟨point', rfl⟩, fun _ => rfl⟩⟩
  have raises : s' = s.goto thread .raised → StoreGoes number blockSize thread call s s' :=
    fun same => ⟨s, _, same, sound.goes trivial, .inr ⟨.inl rfl, fun _ => rfl⟩⟩
  cases point with
  | pathExists =>
    cases outcome with
    | completed =>
      have same := (Option.some.inj moved).symm
      split at same
      · exact ⟨s, _, same, sound.goes trivial, .inl rfl⟩
      · exact stays .makedirs trivial same
    | failed => exact stays .makedirs trivial (Option.some.inj moved).symm
  | makedirs =>
    cases outcome with
    | completed => exact stays .openTemporary trivial (Option.some.inj moved).symm
    | failed => exact raises (Option.some.inj moved).symm
  | openTemporary =>
    have created : ∀ point', Ok number (s.create (call.path.tmpPath (number thread))) thread (.storing call point') →
        Goes number blockSize thread s (s.create (call.path.tmpPath (number thread))) (.storing call point') :=
      fun point' ok => ⟨sound.files.create _, rfl, fun other differ => .create sound.files distinct differ _, ok⟩
    cases outcome with
    | completed =>
      obtain ⟨-, same⟩ := Option.ite_none_right_eq_some.mp moved
      refine ⟨_, _, (Option.some.inj same).symm, created _ ⟨Function.update_self .., Function.update_self ..⟩,
        .inr ⟨.inr ⟨_, rfl⟩, holds_create sound.files _ _⟩⟩
    | failed made =>
      simp only [Model.BlockFiles.storeStep] at moved
      split_ifs at moved
      · exact ⟨_, _, (Option.some.inj moved).symm, created _ trivial,
          .inr ⟨.inr ⟨_, rfl⟩, holds_create sound.files _ _⟩⟩
      · exact stays .removeTemporary trivial (Option.some.inj moved).symm
  | write fd =>
    obtain ⟨linked, empty⟩ := ok
    have wrote : ∀ transferred point', Ok number (s.writeBlock blockSize call fd transferred) thread
        (.storing call point') →
        Goes number blockSize thread s (s.writeBlock blockSize call fd transferred) (.storing call point') :=
      fun transferred point' ok => ⟨sound.files.writeBlock linked transferred, rfl,
        fun other differ => .writeBlock sound.files distinct differ linked transferred, ok⟩
    cases outcome with
    | completed transferred =>
      refine ⟨_, _, (Option.some.inj moved).symm, wrote transferred _ fun whole => ⟨linked, ?_⟩,
        .inr ⟨.inr ⟨_, rfl⟩, holds_writeBlock sound.files linked transferred⟩⟩
      dsimp only [Model.BlockFiles.writeBlock]
      rw [Function.update_self, empty, List.take_of_length_le (of_decide_eq_true whole), nil_writeAt]
      exact List.mem_cons_self ..
    | failed transferred =>
      exact ⟨_, _, (Option.some.inj moved).symm, wrote transferred _ nofun,
        .inr ⟨.inr ⟨_, rfl⟩, holds_writeBlock sound.files linked transferred⟩⟩
  | close fd whole =>
    cases outcome with
    | completed =>
      have same := (Option.some.inj moved).symm
      cases whole with
      | true => exact stays .replace ⟨fd, ok rfl⟩ same
      | false => exact stays .removeTemporary trivial same
    | failed => exact stays .removeTemporary trivial (Option.some.inj moved).symm
  | replace =>
    cases outcome with
    | completed =>
      obtain ⟨fd, linked, complete⟩ := ok
      obtain ⟨middle, renamed, rfl⟩ := Option.map_eq_some_iff.mp moved
      refine ⟨middle, _, rfl, ⟨sound.files.rename linked complete renamed, ?_,
        fun other differ => .rename distinct differ renamed, trivial⟩, .inl rfl⟩
      obtain ⟨_, -, rfl⟩ := Option.map_eq_some_iff.mp renamed
      rfl
    | failed => exact stays .removeTemporary trivial (Option.some.inj moved).symm
  | removeTemporary =>
    cases outcome with
    | completed =>
      obtain ⟨middle, removed, rfl⟩ := Option.map_eq_some_iff.mp moved
      refine ⟨middle, _, rfl, ⟨sound.files.remove removed, threads_remove removed,
        fun other differ => .remove (fun path same => ?_) removed, trivial⟩,
        .inr ⟨.inl rfl, holds_removeTemporary removed⟩⟩
      exact differ (distinct (tmpPath_injective same).2)
    | failed => exact raises (Option.some.inj moved).symm

variable [DecidableEq β]

omit [DecidableEq ι] in
/-- A complete read fills the slice with the block that the file holds. -/
theorem slice_readBlock {call : BlockCall β} {fd transferred : ℕ} (bounded : (s.contents fd).length ≤ blockSize)
    (enough : blockSize ≤ (s.readBytes blockSize call fd transferred).length) :
    (s.readBlock blockSize call fd transferred).slice blockSize call = s.contents fd ∧
      (s.contents fd).length = blockSize := by
  have whole : s.readBytes blockSize call fd transferred = s.contents fd := by
    rw [readBytes, List.take_take] at enough ⊢
    rw [List.length_take] at enough
    exact List.take_of_length_le (by omega)
  rw [whole] at enough
  have length : (s.contents fd).length = blockSize := le_antisymm bounded enough
  refine ⟨?_, length⟩
  dsimp only [slice, readBlock]
  rw [Function.update_self, whole, ← length]
  exact readAt_of_holds (holds_writeAt ..)

/-- A step of `load_block`. It gets to closing the file normally only by filling its slice with a complete block. -/
def LoadGoes (number : ι → ℕ) (blockSize : ℕ) (thread : ι) (call : BlockCall β) (point : LoadPoint)
    (outcome : SystemOutcome) (s s' : BlockFiles ι β) : Prop :=
  ∃ middle place, s' = middle.goto thread place ∧ Goes number blockSize thread s middle place ∧
    (place = .raised ∨ (place = .returned ∧ ∃ fd, point = .close fd false) ∨
      ∃ point', place = .loading call point' ∧ ∀ fd, point' = .close fd false →
        (∃ transferred, outcome = .completed transferred) ∧ (call.path, middle.slice blockSize call) ∈ s.taken ∧
          (middle.slice blockSize call).length = blockSize)

theorem loadStep_goes (sound : Sound number blockSize s) {call : BlockCall β} {point : LoadPoint}
    (here : s.threads thread = .loading call point) {outcome : SystemOutcome}
    (moved : s.loadStep blockSize thread call point outcome = some s') :
    LoadGoes number blockSize thread call point outcome s s' := by
  have ok := sound.threads thread
  rw [here] at ok
  have read : ∀ (fd transferred : ℕ) (place : BlockThread β), Ok number s thread place →
      Goes number blockSize thread s (s.readBlock blockSize call fd transferred) place := by
    intro fd transferred place ok
    obtain ⟨fresh, distinct, complete, bounded⟩ := sound.files
    exact ⟨⟨fresh, distinct, complete, bounded⟩, rfl, fun other _ => ⟨le_rfl, fun _ member => member, fun _ => rfl,
      fun _ _ _ => rfl, fun _ _ apart => ⟨rfl, apart⟩⟩, ok⟩
  cases point with
  | openSource =>
    cases outcome with
    | completed =>
      obtain ⟨file, found, rfl⟩ := Option.map_eq_some_iff.mp moved
      refine ⟨s, _, rfl, sound.goes ⟨sound.files.complete _ _ found, sound.files.fresh _ _ found,
        fun other path linked => ?_⟩, .inr (.inr ⟨_, rfl, nofun⟩)⟩
      exact name_ne_tmpPath _ _ _ (sound.files.distinct _ _ _ found linked)
    | failed =>
      exact ⟨s, _, (Option.some.inj moved).symm, sound.goes trivial, .inr (.inr ⟨_, rfl, nofun⟩)⟩
  | readv fd =>
    obtain ⟨complete, -⟩ := ok
    cases outcome with
    | completed transferred =>
      have same := (Option.some.inj moved).symm
      split at same
      · exact ⟨_, _, same, read fd transferred _ trivial, .inr (.inr ⟨_, rfl, nofun⟩)⟩
      · next enough =>
        obtain ⟨filled, length⟩ := slice_readBlock (sound.files.bounded _ complete) (not_lt.mp enough)
        refine ⟨_, _, same, read fd transferred _ trivial, .inr (.inr ⟨_, rfl, fun _ _ => ⟨⟨transferred, rfl⟩, ?_⟩⟩)⟩
        rw [filled]
        exact ⟨complete, length⟩
    | failed transferred =>
      exact ⟨_, _, (Option.some.inj moved).symm, read fd transferred _ trivial, .inr (.inr ⟨_, rfl, nofun⟩)⟩
  | removeSource fd =>
    have raising : ∀ middle : BlockFiles ι β, Goes number blockSize thread s middle .raised →
        (∀ fd, Goes number blockSize thread s middle (.loading call (.close fd true))) →
        s' = middle.goto thread (fd.elim .raised fun fd => .loading call (.close fd true)) →
        LoadGoes number blockSize thread call (.removeSource fd) outcome s s' := by
      intro middle raised closing same
      cases fd with
      | none => exact ⟨middle, _, same, raised, .inl rfl⟩
      | some fd => exact ⟨middle, _, same, closing fd, .inr (.inr ⟨_, rfl, nofun⟩)⟩
    cases outcome with
    | completed =>
      obtain ⟨middle, removed, rfl⟩ := Option.map_eq_some_iff.mp moved
      have goes : ∀ place, Ok number middle thread place → Goes number blockSize thread s middle place :=
        fun place ok => ⟨sound.files.remove removed, threads_remove removed,
          fun other _ => .remove (fun path => (name_ne_tmpPath _ _ _).symm) removed, ok⟩
      exact raising middle (goes _ trivial) (fun fd => goes _ trivial) rfl
    | failed =>
      exact raising s (sound.goes trivial) (fun fd => sound.goes trivial) (Option.some.inj moved).symm
  | close fd raising =>
    cases outcome with
    | completed =>
      have same := (Option.some.inj moved).symm
      cases raising with
      | true => exact ⟨s, _, same, sound.goes trivial, .inl rfl⟩
      | false => exact ⟨s, _, same, sound.goes trivial, .inr (.inl ⟨rfl, fd, rfl⟩)⟩
    | failed => exact ⟨s, _, (Option.some.inj moved).symm, sound.goes trivial, .inl rfl⟩

/-- What an event does. -/
inductive Moves (number : ι → ℕ) (blockSize : ℕ) (s : BlockFiles ι β) : BlockEvent ι β → BlockFiles ι β → Prop
  | storeBlock (thread : ι) (call : BlockCall β) :
      Moves number blockSize s (.storeBlock thread call) (s.goto thread (.storing call .pathExists))
  | loadBlock (thread : ι) (call : BlockCall β) :
      Moves number blockSize s (.loadBlock thread call) (s.goto thread (.loading call .openSource))
  | storing {thread : ι} {outcome : SystemOutcome} {call : BlockCall β} {point : StorePoint} {s' : BlockFiles ι β}
      (here : s.threads thread = .storing call point)
      (moved : s.storeStep number blockSize thread call point outcome = some s') :
      Moves number blockSize s (.systemCall thread outcome) s'
  | loading {thread : ι} {outcome : SystemOutcome} {call : BlockCall β} {point : LoadPoint} {s' : BlockFiles ι β}
      (here : s.threads thread = .loading call point)
      (moved : s.loadStep blockSize thread call point outcome = some s') :
      Moves number blockSize s (.systemCall thread outcome) s'
  | unlink {path : BlockPath} {s' : BlockFiles ι β} (removed : s.remove path.name = some s') :
      Moves number blockSize s (.unlink path) s'
  | bufferWrite (buffer : β) (bytes : List UInt8) : Moves number blockSize s (.bufferWrite buffer bytes)
      { s with buffers := Function.update s.buffers buffer bytes }

theorem moves_of_step {event : BlockEvent ι β} (moved : s.step number blockSize event = some s') :
    Moves number blockSize s event s' := by
  cases event with
  | storeBlock thread call =>
    obtain ⟨-, same⟩ := Option.ite_none_left_eq_some.mp moved
    obtain rfl := Option.some.inj same
    exact .storeBlock thread call
  | loadBlock thread call =>
    obtain ⟨-, same⟩ := Option.ite_none_left_eq_some.mp moved
    obtain rfl := Option.some.inj same
    exact .loadBlock thread call
  | systemCall thread outcome =>
    simp only [Model.BlockFiles.step] at moved
    split at moved
    · next here => exact .storing here moved
    · next here => exact .loading here moved
    · cases moved
  | unlink path => exact .unlink moved
  | bufferWrite buffer bytes =>
    obtain rfl := Option.some.inj moved
    exact .bufferWrite buffer bytes

theorem Sound.step (sound : Sound number blockSize s) (distinct : Function.Injective number) {event : BlockEvent ι β}
    (moved : s.step number blockSize event = some s') : Sound number blockSize s' := by
  cases moves_of_step moved with
  | storeBlock thread call => exact sound.goto (sound.goes trivial)
  | loadBlock thread call => exact sound.goto (sound.goes trivial)
  | storing here moved =>
    obtain ⟨middle, place, rfl, goes, -⟩ := storeStep_goes sound distinct here moved
    exact sound.goto goes
  | loading here moved =>
    obtain ⟨middle, place, rfl, goes, -⟩ := loadStep_goes sound here moved
    exact sound.goto goes
  | unlink removed =>
    refine ⟨sound.files.remove removed, fun thread => ?_⟩
    rw [threads_remove removed]
    exact (sound.threads thread).leaves (.remove (fun path => (name_ne_tmpPath _ _ _).symm) removed)
  | bufferWrite buffer bytes =>
    obtain ⟨fresh, distinct, complete, bounded⟩ := sound.files
    exact ⟨⟨fresh, distinct, complete, bounded⟩, sound.threads⟩

/-! ## One call of a thread -/

/-- The thread makes no new call. -/
def OneCall (thread : ι) (event : BlockEvent ι β) : Prop :=
  ∀ call, event ≠ .storeBlock thread call ∧ event ≠ .loadBlock thread call

/-- Only its own steps move a thread. -/
theorem threads_step (sound : Sound number blockSize s) (distinct : Function.Injective number)
    {event : BlockEvent ι β} (moved : s.step number blockSize event = some s') (oneCall : OneCall thread event)
    (others : ∀ outcome, event ≠ .systemCall thread outcome) : s'.threads thread = s.threads thread := by
  have elsewhere : ∀ {other : ι} {middle : BlockFiles ι β} {place : BlockThread β}, other ≠ thread →
      middle.threads = s.threads → (middle.goto other place).threads thread = s.threads thread := by
    intro other middle place differ same
    rw [← same]
    exact Function.update_of_ne differ.symm _ _
  cases moves_of_step moved with
  | storeBlock other call =>
    refine elsewhere ?_ rfl
    rintro rfl
    exact (oneCall call).1 rfl
  | loadBlock other call =>
    refine elsewhere ?_ rfl
    rintro rfl
    exact (oneCall call).2 rfl
  | @storing other outcome _ _ _ here moved =>
    obtain ⟨middle, place, rfl, goes, -⟩ := storeStep_goes sound distinct here moved
    refine elsewhere ?_ goes.threads
    rintro rfl
    exact others outcome rfl
  | @loading other outcome _ _ _ here moved =>
    obtain ⟨middle, place, rfl, goes, -⟩ := loadStep_goes sound here moved
    refine elsewhere ?_ goes.threads
    rintro rfl
    exact others outcome rfl
  | unlink removed => rw [threads_remove removed]
  | bufferWrite buffer bytes => rfl

theorem returned_stays (sound : Sound number blockSize s) (distinct : Function.Injective number)
    {event : BlockEvent ι β} (moved : s.step number blockSize event = some s') (oneCall : OneCall thread event)
    (returned : s.threads thread = .returned) : s'.threads thread = .returned := by
  rw [threads_step sound distinct moved oneCall, returned]
  rintro outcome rfl
  simp [Model.BlockFiles.step, returned] at moved

/-- The next place of a thread in `store_block`. -/
theorem storing_step (sound : Sound number blockSize s) (distinct : Function.Injective number)
    {call : BlockCall β} {point : StorePoint} (here : s.threads thread = .storing call point) {outcome : SystemOutcome}
    (moved : s.step number blockSize (.systemCall thread outcome) = some s') :
    s'.threads thread = .returned ∨ (s'.threads thread = .raised ∨ ∃ point', s'.threads thread = .storing call point') ∧
      ∀ path, s'.holds path = s.holds path := by
  simp only [Model.BlockFiles.step, here] at moved
  obtain ⟨middle, place, rfl, -, outcome⟩ := storeStep_goes sound distinct here moved
  have there : (middle.goto thread place).threads thread = place := Function.update_self ..
  rw [there]
  exact outcome

/-- The next place of a thread in `load_block`. -/
theorem loading_step (sound : Sound number blockSize s) {call : BlockCall β} {point : LoadPoint}
    (here : s.threads thread = .loading call point) {outcome : SystemOutcome}
    (moved : s.step number blockSize (.systemCall thread outcome) = some s') :
    s'.threads thread = .raised ∨ (s'.threads thread = .returned ∧ ∃ fd, point = .close fd false) ∨
      ∃ point', s'.threads thread = .loading call point' ∧ ∀ fd, point' = .close fd false →
        (∃ transferred, outcome = .completed transferred) ∧ (call.path, s'.slice blockSize call) ∈ s.taken ∧
          (s'.slice blockSize call).length = blockSize := by
  simp only [Model.BlockFiles.step, here] at moved
  obtain ⟨middle, place, rfl, -, outcome⟩ := loadStep_goes sound here moved
  have there : (middle.goto thread place).threads thread = place := Function.update_self ..
  rw [there]
  exact outcome

/-- Where a thread is in its call of `store_block`. -/
def InStore (call : BlockCall β) (place : BlockThread β) : Prop :=
  place = .returned ∨ place = .raised ∨ ∃ point, place = .storing call point

theorem InStore.step (sound : Sound number blockSize s) (distinct : Function.Injective number)
    {event : BlockEvent ι β} (moved : s.step number blockSize event = some s') (oneCall : OneCall thread event)
    {call : BlockCall β} (inside : InStore call (s.threads thread)) : InStore call (s'.threads thread) := by
  by_cases own : ∃ outcome, event = .systemCall thread outcome
  · obtain ⟨outcome, rfl⟩ := own
    rcases inside with here | here | ⟨point, here⟩
    · simp [Model.BlockFiles.step, here] at moved
    · simp [Model.BlockFiles.step, here] at moved
    · rcases storing_step sound distinct here moved with returned | ⟨later, -⟩
      · exact .inl returned
      · exact .inr later
  · rw [threads_step sound distinct moved oneCall fun outcome same => own ⟨outcome, same⟩]
    exact inside

/-- A directory without hard links, in which block paths hold complete blocks, and no call is being made. Files of
other names may hold anything. -/
structure Clean (blockSize : ℕ) (s : BlockFiles ι β) : Prop where
  files : Files blockSize s
  idle : ∀ thread, (s.threads thread).isBusy = false

omit [DecidableEq ι] [DecidableEq β] in
theorem Clean.sound {start : BlockFiles ι β} (clean : Clean blockSize start) : Sound number blockSize start := by
  refine ⟨clean.files, fun thread => ?_⟩
  have idle := clean.idle thread
  cases place : start.threads thread with
  | storing => simp [place, BlockThread.isBusy] at idle
  | loading => simp [place, BlockThread.isBusy] at idle
  | _ => trivial

/-- A step within a call of `store_block` that raises in the end changes nothing under block paths. -/
theorem holds_of_raised (distinct : Function.Injective number) {called source target final : BlockFiles ι β}
    (sound : Sound number blockSize called) {call : BlockCall β} {point : StorePoint}
    (begins : called.threads thread = .storing call point) {before after : List (BlockEvent ι β)}
    {outcome : SystemOutcome} (earlier : Run (Steps (Model.BlockFiles.step number blockSize)) called before source)
    (moved : source.step number blockSize (.systemCall thread outcome) = some target)
    (later : Run (Steps (Model.BlockFiles.step number blockSize)) target after final)
    (oneCall : ∀ event ∈ before ++ after, OneCall thread event) (raised : final.threads thread = .raised)
    (path : BlockPath) : target.holds path = source.holds path := by
  obtain ⟨sound, inside⟩ : Sound number blockSize source ∧ InStore call (source.threads thread) := by
    refine earlier.preserves (fun s => Sound number blockSize s ∧ InStore call (s.threads thread))
      ⟨sound, .inr (.inr ⟨point, begins⟩)⟩ ?_
    rintro s event s' member ⟨sound, inside⟩ moved
    exact ⟨sound.step distinct moved, inside.step sound distinct moved (oneCall event (List.mem_append_left _ member))⟩
  rcases inside with here | here | ⟨point, here⟩
  · simp [Model.BlockFiles.step, here] at moved
  · simp [Model.BlockFiles.step, here] at moved
  · rcases storing_step sound distinct here moved with returned | ⟨-, same⟩
    · have stays : Sound number blockSize final ∧ final.threads thread = .returned := by
        refine later.preserves (fun s => Sound number blockSize s ∧ s.threads thread = .returned)
          ⟨sound.step distinct moved, returned⟩ ?_
        rintro s event s' member ⟨sound, returned⟩ moved
        exact ⟨sound.step distinct moved,
          returned_stays sound distinct moved (oneCall event (List.mem_append_right _ member)) returned⟩
      rw [stays.2] at raised
      cases raised
    · exact same path

/-! ## Where the blocks come from -/

omit [DecidableEq β] in
/-- Only a write takes a block from a buffer. -/
theorem taken_storeStep {call : BlockCall β} {point : StorePoint} {outcome : SystemOutcome}
    (moved : s.storeStep number blockSize thread call point outcome = some s') :
    s'.taken = s.taken ∨
      (∃ fd, point = .write fd) ∧ s'.taken = (call.path, s.slice blockSize call) :: s.taken := by
  cases point with
  | write fd =>
    refine .inr ⟨⟨fd, rfl⟩, ?_⟩
    cases outcome with
    | completed transferred =>
      obtain rfl := Option.some.inj moved
      rfl
    | failed transferred =>
      obtain rfl := Option.some.inj moved
      rfl
  | openTemporary =>
    left
    cases outcome with
    | completed =>
      obtain ⟨-, same⟩ := Option.ite_none_right_eq_some.mp moved
      obtain rfl := Option.some.inj same
      rfl
    | failed =>
      simp only [Model.BlockFiles.storeStep] at moved
      split_ifs at moved <;>
        (obtain rfl := Option.some.inj moved; rfl)
  | replace =>
    left
    cases outcome with
    | completed =>
      obtain ⟨middle, renamed, rfl⟩ := Option.map_eq_some_iff.mp moved
      obtain ⟨_, -, rfl⟩ := Option.map_eq_some_iff.mp renamed
      rfl
    | failed =>
      obtain rfl := Option.some.inj moved
      rfl
  | removeTemporary =>
    left
    cases outcome with
    | completed =>
      obtain ⟨middle, removed, rfl⟩ := Option.map_eq_some_iff.mp moved
      exact (taken_remove removed : middle.taken = s.taken)
    | failed =>
      obtain rfl := Option.some.inj moved
      rfl
  | _ =>
    left
    cases outcome <;> (obtain rfl := Option.some.inj moved; rfl)

theorem taken_loadStep {call : BlockCall β} {point : LoadPoint} {outcome : SystemOutcome}
    (moved : s.loadStep blockSize thread call point outcome = some s') : s'.taken = s.taken := by
  cases point with
  | openSource =>
    cases outcome with
    | completed =>
      obtain ⟨file, -, rfl⟩ := Option.map_eq_some_iff.mp moved
      rfl
    | failed =>
      obtain rfl := Option.some.inj moved
      rfl
  | removeSource fd =>
    cases outcome with
    | completed =>
      obtain ⟨middle, removed, rfl⟩ := Option.map_eq_some_iff.mp moved
      exact (taken_remove removed : middle.taken = s.taken)
    | failed =>
      obtain rfl := Option.some.inj moved
      rfl
  | _ => cases outcome <;> (obtain rfl := Option.some.inj moved; rfl)

theorem taken_step {event : BlockEvent ι β} (moved : s.step number blockSize event = some s') :
    s'.taken = s.taken ∨ ∃ thread outcome call fd, event = .systemCall thread outcome ∧
      s.threads thread = .storing call (.write fd) ∧ s'.taken = (call.path, s.slice blockSize call) :: s.taken := by
  cases moves_of_step moved with
  | @storing thread outcome call point _ here moved =>
    rcases taken_storeStep moved with same | ⟨⟨fd, rfl⟩, taken⟩
    · exact .inl same
    · exact .inr ⟨thread, outcome, call, fd, rfl, here, taken⟩
  | loading here moved => exact .inl (taken_loadStep moved)
  | unlink removed => exact .inl (taken_remove removed)
  | _ => exact .inl rfl

/-- A call of `store_block` for the path took the block from its buffer, in the run or before it. -/
def Took (number : ι → ℕ) (blockSize : ℕ) (start : BlockFiles ι β) (past : List (BlockEvent ι β)) (path : BlockPath)
    (block : List UInt8) : Prop :=
  (path, block) ∈ start.taken ∨ ∃ before after thread outcome source call fd,
    past = before ++ .systemCall thread outcome :: after ∧
      Run (Steps (Model.BlockFiles.step number blockSize)) start before source ∧
      source.threads thread = .storing call (.write fd) ∧ call.path = path ∧ source.slice blockSize call = block

theorem took_of_taken {start : BlockFiles ι β} {past : List (BlockEvent ι β)}
    (run : Run (Steps (Model.BlockFiles.step number blockSize)) start past s) :
    ∀ path block, (path, block) ∈ s.taken → Took number blockSize start past path block := by
  refine run.invariant (fun past s => ∀ path block, (path, block) ∈ s.taken →
    Took number blockSize start past path block) (fun path block => .inl) ?_
  intro past source event target reached origins moved path block member
  have earlier : (path, block) ∈ source.taken → Took number blockSize start (past ++ [event]) path block := by
    intro member
    rcases origins path block member with initial | ⟨before, after, thread, outcome, s, call, fd, rfl, facts⟩
    · exact .inl initial
    · exact .inr ⟨before, after ++ [event], thread, outcome, s, call, fd, by simp, facts⟩
  rcases taken_step moved with same | ⟨thread, outcome, call, fd, rfl, here, taken⟩
  · exact earlier (same ▸ member)
  · rw [taken] at member
    rcases List.mem_cons.mp member with new | old
    · obtain ⟨rfl, rfl⟩ := Prod.mk.inj new
      exact .inr ⟨past, [], thread, outcome, source, call, fd, rfl, reached, here, rfl, rfl⟩
    · exact earlier old

/-- The slice of a call is filled with a block that was taken for its path. -/
def Filled (number : ι → ℕ) (blockSize : ℕ) (called : BlockFiles ι β) (thread : ι) (call : BlockCall β)
    (inside : List (BlockEvent ι β)) : Prop :=
  ∃ before after transferred source target,
    inside = before ++ .systemCall thread (.completed transferred) :: after ∧
      Run (Steps (Model.BlockFiles.step number blockSize)) called before source ∧
      source.step number blockSize (.systemCall thread (.completed transferred)) = some target ∧
      (call.path, target.slice blockSize call) ∈ source.taken ∧ (target.slice blockSize call).length = blockSize

theorem Filled.snoc {called : BlockFiles ι β} {call : BlockCall β} {inside : List (BlockEvent ι β)}
    (filled : Filled number blockSize called thread call inside) (event : BlockEvent ι β) :
    Filled number blockSize called thread call (inside ++ [event]) := by
  obtain ⟨before, after, transferred, source, target, rfl, facts⟩ := filled
  exact ⟨before, after ++ [event], transferred, source, target, by simp, facts⟩

/-- Where a thread is in its call of `load_block`. -/
def InLoad (number : ι → ℕ) (blockSize : ℕ) (called : BlockFiles ι β) (thread : ι) (call : BlockCall β)
    (inside : List (BlockEvent ι β)) (place : BlockThread β) : Prop :=
  place = .raised ∨ (place = .returned ∧ Filled number blockSize called thread call inside) ∨
    ∃ point, place = .loading call point ∧
      ∀ fd, point = .close fd false → Filled number blockSize called thread call inside

theorem InLoad.step {called : BlockFiles ι β} {call : BlockCall β} {inside : List (BlockEvent ι β)}
    (sound : Sound number blockSize s) (distinct : Function.Injective number)
    (run : Run (Steps (Model.BlockFiles.step number blockSize)) called inside s) {event : BlockEvent ι β}
    (moved : s.step number blockSize event = some s') (oneCall : OneCall thread event)
    (within : InLoad number blockSize called thread call inside (s.threads thread)) :
    InLoad number blockSize called thread call (inside ++ [event]) (s'.threads thread) := by
  by_cases own : ∃ outcome, event = .systemCall thread outcome
  · obtain ⟨outcome, rfl⟩ := own
    rcases within with here | ⟨here, -⟩ | ⟨point, here, closing⟩
    · simp [Model.BlockFiles.step, here] at moved
    · simp [Model.BlockFiles.step, here] at moved
    · rcases loading_step sound here moved with raised | ⟨returned, fd, rfl⟩ | ⟨point', there, reads⟩
      · exact .inl raised
      · exact .inr (.inl ⟨returned, (closing fd rfl).snoc _⟩)
      · refine .inr (.inr ⟨point', there, fun fd same => ?_⟩)
        obtain ⟨⟨transferred, rfl⟩, taken, length⟩ := reads fd same
        exact ⟨inside, [], transferred, s, s', rfl, run, moved, taken, length⟩
  · rw [threads_step sound distinct moved oneCall fun outcome same => own ⟨outcome, same⟩]
    rcases within with here | ⟨here, filled⟩ | ⟨point, here, closing⟩
    · exact .inl here
    · exact .inr (.inl ⟨here, filled.snoc event⟩)
    · exact .inr (.inr ⟨point, here, fun fd same => (closing fd same).snoc event⟩)

/-- A call of `load_block` that returns has filled its slice. -/
theorem filled_of_returned (distinct : Function.Injective number) {called final : BlockFiles ι β}
    (sound : Sound number blockSize called) {call : BlockCall β}
    (begins : called.threads thread = .loading call .openSource) {inside : List (BlockEvent ι β)}
    (run : Run (Steps (Model.BlockFiles.step number blockSize)) called inside final)
    (oneCall : ∀ event ∈ inside, OneCall thread event) (returned : final.threads thread = .returned) :
    Filled number blockSize called thread call inside := by
  obtain ⟨-, within⟩ := run.invariant
    (fun inside s => (∀ event ∈ inside, OneCall thread event) → Sound number blockSize s ∧
      InLoad number blockSize called thread call inside (s.threads thread))
    (fun _ => ⟨sound, .inr (.inr ⟨_, begins, nofun⟩)⟩)
    (fun inside source event target earlier within moved oneCall => by
      obtain ⟨sound, within⟩ := within fun other member => oneCall other (List.mem_append_left _ member)
      exact ⟨sound.step distinct moved, within.step sound distinct earlier moved (oneCall event (by simp))⟩)
    oneCall
  rw [returned] at within
  rcases within with raised | ⟨-, filled⟩ | ⟨point, loading, -⟩
  · cases raised
  · exact filled
  · cases loading

/-! ## The whole layout -/

theorem Sound.run {start : BlockFiles ι β} {past : List (BlockEvent ι β)} (sound : Sound number blockSize start)
    (distinct : Function.Injective number) (run : Run (Steps (Model.BlockFiles.step number blockSize)) start past s) :
    Sound number blockSize s :=
  run.preserves (Sound number blockSize) sound fun _ _ _ _ sound moved => sound.step distinct moved

/-- Whatever the system calls do and however they interleave, a block path that exists holds a complete block that a
call of `store_block` for it took from its buffer; a call of `load_block` that returns has filled its slice with such a
block; and no step of a call of `store_block` that raises changes what block paths hold. -/
theorem no_partial_block (distinct : Function.Injective number) {start : BlockFiles ι β}
    (clean : Clean blockSize start) {past : List (BlockEvent ι β)}
    (run : Run (Steps (Model.BlockFiles.step number blockSize)) start past s) :
    (∀ path block, s.holds path = some block → Took number blockSize start past path block) ∧
    (∀ thread call inside final, s.threads thread = .loading call .openSource →
      Run (Steps (Model.BlockFiles.step number blockSize)) s inside final →
      (∀ event ∈ inside, OneCall thread event) → final.threads thread = .returned →
      ∃ before after transferred source target,
        inside = before ++ .systemCall thread (.completed transferred) :: after ∧
          Run (Steps (Model.BlockFiles.step number blockSize)) s before source ∧
          source.step number blockSize (.systemCall thread (.completed transferred)) = some target ∧
          Took number blockSize start (past ++ before) call.path (target.slice blockSize call) ∧
          (target.slice blockSize call).length = blockSize) ∧
    (∀ thread call before outcome after source target final, s.threads thread = .storing call .pathExists →
      Run (Steps (Model.BlockFiles.step number blockSize)) s before source →
      source.step number blockSize (.systemCall thread outcome) = some target →
      Run (Steps (Model.BlockFiles.step number blockSize)) target after final →
      (∀ event ∈ before ++ after, OneCall thread event) → final.threads thread = .raised →
      ∀ path, target.holds path = source.holds path) := by
  have sound : Sound number blockSize s := clean.sound.run distinct run
  refine ⟨fun path block held => ?_, fun thread call inside final begins later oneCall returned => ?_,
    fun thread call before outcome after source target final begins earlier moved later oneCall raised => ?_⟩
  · obtain ⟨file, found, rfl⟩ := Option.map_eq_some_iff.mp held
    exact took_of_taken run path _ (sound.files.complete path file found)
  · obtain ⟨before, after, transferred, source, target, split, earlier, moved, taken, length⟩ :=
      filled_of_returned distinct sound begins later oneCall returned
    exact ⟨before, after, transferred, source, target, split, earlier, moved,
      took_of_taken (run.append earlier) call.path _ taken, length⟩
  · exact holds_of_raised distinct sound begins earlier moved later oneCall raised

def emptyDirectory : BlockFiles ℕ Unit where
  paths _ := none
  contents _ := []
  nextFile := 0
  buffers _ := [7, 8, 9]
  threads _ := .idle
  taken := []

def firstBlock : BlockCall Unit := ⟨⟨"aa/00"⟩, (), 1⟩

def secondBlock : BlockCall Unit := ⟨⟨"bb/00"⟩, (), 0⟩

/-- One thread stores a block, and two more begin to load it and to store another. -/
def begun : List (BlockEvent ℕ Unit) :=
  [.storeBlock 0 firstBlock, .systemCall 0 (.completed 0), .systemCall 0 (.completed 0), .systemCall 0 (.completed 0),
    .storeBlock 2 secondBlock, .systemCall 0 (.completed 2), .systemCall 0 (.completed 0), .systemCall 0 (.completed 0),
    .loadBlock 1 firstBlock]

/-- The load goes on. -/
def reading : List (BlockEvent ℕ Unit) :=
  [.systemCall 1 (.completed 0), .bufferWrite () [0, 0, 0], .systemCall 1 (.completed 2), .systemCall 1 (.completed 0)]

/-- The other store gets to its write. -/
def opening : List (BlockEvent ℕ Unit) :=
  [.systemCall 2 (.completed 0), .systemCall 2 (.completed 0), .unlink firstBlock.path, .systemCall 2 (.completed 0)]

/-- After a short write the store raises. -/
def raising : List (BlockEvent ℕ Unit) := [.systemCall 2 (.completed 0), .systemCall 2 (.completed 0)]

theorem no_partial_block_threeThreads : ∃ s loaded source target,
    replay (Model.BlockFiles.step id 2) emptyDirectory begun = some s ∧
    replay (Model.BlockFiles.step id 2) s reading = some loaded ∧
    replay (Model.BlockFiles.step id 2) s opening = some source ∧
    source.step id 2 (.systemCall 2 (.completed 1)) = some target ∧
    Took id 2 emptyDirectory begun firstBlock.path [8, 9] ∧
    (∃ before after transferred source target,
      reading = before ++ .systemCall 1 (.completed transferred) :: after ∧
        Run (Steps (Model.BlockFiles.step id 2)) s before source ∧
        source.step id 2 (.systemCall 1 (.completed transferred)) = some target ∧
        Took id 2 emptyDirectory (begun ++ before) firstBlock.path (target.slice 2 firstBlock) ∧
        (target.slice 2 firstBlock).length = 2) ∧
    ∀ path, target.holds path = source.holds path := by
  have executed : ((replay (Model.BlockFiles.step id 2) emptyDirectory begun).bind fun s =>
      (replay (Model.BlockFiles.step id 2) s reading).bind fun loaded =>
      (replay (Model.BlockFiles.step id 2) s opening).bind fun source =>
      (source.step id 2 (.systemCall 2 (.completed 1))).bind fun target =>
      (replay (Model.BlockFiles.step id 2) target raising).map fun final =>
        (s.holds firstBlock.path, s.threads 1, s.threads 2, loaded.threads 1, final.threads 2)) =
      some (some [8, 9], .loading firstBlock .openSource, .storing secondBlock .pathExists, .returned, .raised) := by
    decide +kernel
  obtain ⟨s, begins, executed⟩ := Option.bind_eq_some_iff.mp executed
  obtain ⟨loaded, reads, executed⟩ := Option.bind_eq_some_iff.mp executed
  obtain ⟨source, opens, executed⟩ := Option.bind_eq_some_iff.mp executed
  obtain ⟨target, writes, executed⟩ := Option.bind_eq_some_iff.mp executed
  obtain ⟨final, raises, same⟩ := Option.map_eq_some_iff.mp executed
  simp only [Prod.mk.injEq] at same
  obtain ⟨held, loading, storing, returned, raised⟩ := same
  have clean : Clean 2 emptyDirectory := ⟨⟨nofun, nofun, nofun, nofun⟩, fun _ => rfl⟩
  obtain ⟨complete, filled, kept⟩ := no_partial_block Function.injective_id clean (.of_replay begins)
  refine ⟨s, loaded, source, target, begins, reads, opens, writes, complete _ _ held,
    filled 1 _ _ loaded loading (.of_replay reads) ?_ returned,
    kept 2 _ _ _ _ source target final storing (.of_replay opens) writes (.of_replay raises) ?_ raised⟩
  · simp [reading, OneCall]
  · simp [opening, raising, OneCall]

end BlockFiles

end KVTiering.Soundness
