import StackLisp.Proofs.Machine.Stage

/-!
Stacks in the middle of a run. Each call that is under way has its own part of the data stack and of
the scope stack, as high as its place in the code tells; below the parts of all calls lies what was
there when the run began. The scopes in these parts are newer than the run, and the outermost one of
each call is its own.
-/

namespace StackLisp

structure Layout where
  code : Code
  heights : Nat → Height
  fits : code.Fits none heights code.length 0

namespace Layout

/-- At a place, the stacks are as high above what lies below them as the layout tells. -/
structure Reaches (layout : Layout) (fresh : ScopeRef → Prop) (below : List Value)
    (outer : List ScopeRef) (place : Nat) (data : List Value) (scopes : List ScopeRef) : Prop where
  inside : place ≤ layout.code.length
  values : ∃ own, data = own ++ below ∧ own.length = (layout.heights place).data
  opened : ∃ own, scopes = own ++ outer ∧ own.length = (layout.heights place).scopes ∧
    ∀ ref ∈ own, fresh ref

variable {layout : Layout} {fresh : ScopeRef → Prop} {below data : List Value}
  {outer scopes : List ScopeRef}
  {place next : Nat}

theorem Reaches.push (reaches : layout.Reaches fresh below outer place data scopes)
    (room : next ≤ layout.code.length)
    (height : layout.heights next = (layout.heights place).more 1) (value : Value) :
    layout.Reaches fresh below outer next (value :: data) scopes := by
  obtain ⟨own, rfl, size⟩ := reaches.values
  obtain ⟨opened, rfl, scopeSize, new⟩ := reaches.opened
  refine ⟨room, ⟨value :: own, rfl, ?_⟩, opened, rfl, ?_, new⟩
  · simp [height, Height.more, size]
  · simp [height, Height.more, scopeSize]

theorem Reaches.move (reaches : layout.Reaches fresh below outer place data scopes)
    (room : next ≤ layout.code.length) (height : layout.heights next = layout.heights place) :
    layout.Reaches fresh below outer next data scopes := by
  refine ⟨room, ?_, ?_⟩
  · rw [height]
    exact reaches.values
  · rw [height]
    exact reaches.opened

theorem Reaches.pop (reaches : layout.Reaches fresh below outer place data scopes)
    (room : next ≤ layout.code.length)
    (height : layout.heights place = (layout.heights next).more 1) :
    ∃ value rest, data = value :: rest ∧ layout.Reaches fresh below outer next rest scopes := by
  obtain ⟨own, rfl, size⟩ := reaches.values
  obtain ⟨opened, rfl, scopeSize, new⟩ := reaches.opened
  rw [height, Height.more] at size scopeSize
  cases own with
  | nil => simp at size
  | cons value rest =>
      refine ⟨value, rest ++ below, rfl, room, ⟨rest, rfl, by simpa using size⟩, opened, rfl,
        scopeSize, new⟩

theorem Reaches.call (reaches : layout.Reaches fresh below outer place data scopes) {base : Height}
    {count : Nat} (room : next ≤ layout.code.length)
    (height : layout.heights place = base.more count)
    (heightBehind : layout.heights next = base.more 1) :
    count ≤ data.length ∧
      ∀ value, layout.Reaches fresh below outer next (value :: data.drop count) scopes := by
  obtain ⟨own, rfl, size⟩ := reaches.values
  obtain ⟨opened, rfl, scopeSize, new⟩ := reaches.opened
  rw [height, Height.more] at size scopeSize
  dsimp only at size scopeSize
  refine ⟨by simp; omega, fun value => ⟨room, ⟨value :: own.drop count, ?_, ?_⟩, opened, rfl, ?_,
    new⟩⟩
  · rw [List.drop_append_of_le_length (by omega)]
    rfl
  · simp [heightBehind, Height.more, size]
  · simp [heightBehind, Height.more, scopeSize]

theorem Reaches.openScope (reaches : layout.Reaches fresh below outer place data scopes)
    (room : next ≤ layout.code.length)
    (height : layout.heights next = (layout.heights place).opened 1) {ref : ScopeRef}
    (isFresh : fresh ref) : layout.Reaches fresh below outer next data (ref :: scopes) := by
  obtain ⟨own, rfl, size⟩ := reaches.values
  obtain ⟨opened, rfl, scopeSize, new⟩ := reaches.opened
  refine ⟨room, ⟨own, rfl, ?_⟩, ref :: opened, rfl, ?_, List.forall_mem_cons.mpr ⟨isFresh, new⟩⟩
  · simp [height, Height.opened, size]
  · simp [height, Height.opened, scopeSize]

theorem Reaches.closeScope (reaches : layout.Reaches fresh below outer place data scopes)
    (room : next ≤ layout.code.length)
    (height : layout.heights place = (layout.heights next).opened 1) :
    ∃ ref rest, scopes = ref :: rest ∧ outer.length ≤ rest.length ∧
      layout.Reaches fresh below outer next data rest := by
  obtain ⟨own, rfl, size⟩ := reaches.values
  obtain ⟨opened, rfl, scopeSize, new⟩ := reaches.opened
  rw [height, Height.opened] at size scopeSize
  cases opened with
  | nil => simp at scopeSize
  | cons ref rest =>
      refine ⟨ref, rest ++ outer, rfl, by simp, room, ⟨own, rfl, size⟩, rest, rfl, ?_, ?_⟩
      · simpa using scopeSize
      · exact fun ref member => new ref (List.mem_cons_of_mem _ member)

theorem reaches_start (layout : Layout) (start : layout.heights 0 = ⟨0, 0⟩)
    (fresh : ScopeRef → Prop) (below : List Value) (outer : List ScopeRef) :
    layout.Reaches fresh below outer 0 below outer := by
  refine ⟨Nat.zero_le _, ⟨[], rfl, ?_⟩, [], rfl, ?_, by simp⟩
  · rw [start]
    rfl
  · rw [start]
    rfl

theorem Reaches.mono (reaches : layout.Reaches fresh below outer place data scopes)
    {other : ScopeRef → Prop} (implied : ∀ ref, fresh ref → other ref) :
    layout.Reaches other below outer place data scopes := by
  obtain ⟨opened, same, scopeSize, new⟩ := reaches.opened
  exact ⟨reaches.inside, reaches.values, opened, same, scopeSize,
    fun ref member => implied ref (new ref member)⟩

end Layout

/-- A function with its layout, run on top of some stacks. It is closed over nothing, and scopes that
it opens have the place `since` or a later one. -/
structure Ground where
  function : Function
  layout : Layout
  code : function.code.toList = layout.code
  captures : function.captures = []
  since : ScopeRef
  data : List Value
  scopes : List ScopeRef
  calls : List CallFrame
  hasScope : scopes ≠ []

namespace Ground

/-- The stacks of a run: it is in its own function, or in a call whose caller waits for a value. -/
inductive Under (ground : Ground) (store : Store) :
    Function → Nat → List Value → List ScopeRef → List CallFrame → Prop
  | own {place data scopes} :
    ground.layout.Reaches (store.Opened false ground.since) ground.data ground.scopes place data
      scopes →
    Under ground store ground.function place data scopes ground.calls
  | called {function : Function} {layout : Layout} {place below outer data scopes ref}
      {frame : CallFrame} {calls} :
    function.code.toList = layout.code ++ [.ret] →
    layout.heights layout.code.length = ⟨1, 0⟩ →
    layout.Reaches (store.Opened false ground.since) below (ref :: outer) place data scopes →
    store.Boundary ground.since ref frame outer →
    (∀ value, Under ground store frame.function frame.resume (value :: below) outer calls) →
    Under ground store function place data scopes (frame :: calls)

variable {ground : Ground} {store : Store} {function : Function} {place : Nat} {data : List Value}
  {scopes : List ScopeRef} {calls : List CallFrame}

theorem Under.ages (under : ground.Under store function place data scopes calls) {later : Store}
    (ages : store.Ages later) : ground.Under later function place data scopes calls := by
  induction under with
  | own reaches => exact .own (reaches.mono fun _ opened => opened.lasts ages.toLasts)
  | called code height reaches boundary _ ih =>
      exact .called code height (reaches.mono fun _ opened => opened.lasts ages.toLasts)
        (boundary.ages ages) ih

theorem Under.stacked (under : ground.Under store function place data scopes calls) :
    store.Stacked ground.since ground.scopes ground.calls scopes calls := by
  induction under with
  | own reaches =>
      obtain ⟨own, rfl, _, new⟩ := reaches.opened
      exact Store.Stacked.here.openAll new
  | called code height reaches boundary _ ih =>
      obtain ⟨own, rfl, _, new⟩ := reaches.opened
      exact (Store.Stacked.called boundary (ih .nil)).openAll new

theorem code_at (function : Function) (place : Nat) :
    function.code[place]? = function.code.toList[place]? := by
  simp

theorem ret_unfit {layout : Layout} : layout.code[place]? ≠ some .ret := by
  intro found
  exact Code.fits_at layout.fits found

/-- The innermost call, and how it may go on by itself. -/
theorem Under.top (under : ground.Under store function place data scopes calls) :
    ∃ (layout : Layout) (below : List Value) (outer : List ScopeRef),
      layout.Reaches (store.Opened false ground.since) below outer place data scopes ∧ outer ≠ [] ∧
      (∀ {later : Store} {next data scopes}, store.Ages later →
        layout.Reaches (later.Opened false ground.since) below outer next data scopes →
        ground.Under later function next data scopes calls) ∧
      ∀ instr, function.code[place]? = some instr → instr ≠ .ret →
        place < layout.code.length ∧ layout.code[place]? = some instr := by
  cases under with
  | own reaches =>
      refine ⟨ground.layout, _, _, reaches, ground.hasScope, fun _ => .own, ?_⟩
      intro instr found _
      rw [code_at, ground.code] at found
      exact ⟨(List.getElem?_eq_some_iff.mp found).1, found⟩
  | called code height reaches boundary waits =>
      refine ⟨_, _, _, reaches, by simp, fun ages reaches => ?_, ?_⟩
      · exact .called code height reaches (boundary.ages ages) fun value =>
          (waits value).ages ages
      intro instr found notRet
      rw [code_at, code] at found
      rcases Nat.lt_or_eq_of_le reaches.inside with inside | last
      · rw [List.getElem?_append_left inside] at found
        exact ⟨inside, found⟩
      · rw [last] at found
        simp at found
        exact absurd found.symm notRet

theorem Under.hasScope (under : ground.Under store function place data scopes calls) : scopes ≠ [] := by
  obtain ⟨layout, below, outer, reaches, nonempty, _⟩ := under.top
  obtain ⟨own, rfl, _⟩ := reaches.opened
  intro empty
  exact nonempty (List.append_eq_nil_iff.mp empty).2

/-- A return leaves one value, and its caller goes on above it. -/
theorem Under.back (under : ground.Under store function place data scopes calls)
    (found : function.code[place]? = some .ret) :
    ∃ frame outer rest, calls = frame :: rest ∧ frame.scopeDepth ≤ scopes.length ∧
      scopes.drop (scopes.length - frame.scopeDepth) = outer ∧
      ground.Under store frame.function frame.resume data outer rest := by
  cases under with
  | own reaches =>
      rw [code_at, ground.code] at found
      exact absurd found ret_unfit
  | called code height reaches boundary waits =>
      rename_i layout below outer ref frame rest
      rw [code_at, code] at found
      rcases Nat.lt_or_eq_of_le reaches.inside with inside | last
      · rw [List.getElem?_append_left inside] at found
        exact absurd found ret_unfit
      · obtain ⟨own, rfl, size⟩ := reaches.values
        obtain ⟨opened, rfl, scopeSize, new⟩ := reaches.opened
        rw [last, height] at size scopeSize
        have none : opened = [] := List.eq_nil_of_length_eq_zero scopeSize
        obtain ⟨value, rfl⟩ := List.length_eq_one_iff.mp size
        subst none
        refine ⟨frame, outer, rest, rfl, ?_, ?_, waits value⟩
        · simp [boundary.depth]
        · simp [boundary.depth]

theorem Under.finished (under : ground.Under store function place data scopes calls)
    (ended : function.code[place]? = none) :
    ground.layout.Reaches (store.Opened false ground.since) ground.data ground.scopes
        ground.layout.code.length data scopes ∧
      calls = ground.calls := by
  cases under with
  | own reaches =>
      rw [code_at, ground.code, List.getElem?_eq_none_iff] at ended
      have last : place = ground.layout.code.length := Nat.le_antisymm reaches.inside ended
      rw [last] at reaches
      exact ⟨reaches, rfl⟩
  | called code height reaches boundary waits =>
      rw [code_at, code, List.getElem?_eq_none_iff] at ended
      have inside := reaches.inside
      simp at ended
      omega

end Ground

end StackLisp
