import Endpoints.Proofs.Bound
import Endpoints.Proofs.ValueEquality

/-!
# Values of enum members

The members of an enum get their values from left to right, and every member sets the number from
which the next one goes on. In closed form, a member without initializer looks back to the nearest
member that has one and counts on from its integer. Without such a member it counts from zero, and
where the value found is no integer, the member stands for its own name.
-/

namespace Endpoints

/-! ## Integers of 64 bits -/

theorem Word.fitsSigned_iff {n : Int} :
    fitsSigned 64 n = true ↔ -(count 63 : Int) ≤ n ∧ n < count 63 := by
  show (if 0 ≤ n then decide (n.toNat < count 63) else decide ((-n).toNat ≤ count 63)) = true ↔ _
  split <;> simp only [decide_eq_true_eq] <;> omega

theorem Json.int_inj {m n : Int} (h : int m = int n) : m = n :=
  Number.integer.inj (number.inj h)

/-- `Json.asInt?` gives the integers of 64 bits. -/
theorem Json.asInt?_eq_some {value : Json} {n : Int} :
    value.asInt? = some n ↔ value = .int n ∧ Word.fitsSigned 64 n = true := by
  unfold asInt?
  -- A number that is an integer, or any other value.
  split
  · next k =>
    rw [Option.ite_none_right_eq_some, Option.some.injEq]
    constructor
    · rintro ⟨hfits, rfl⟩
      exact ⟨rfl, hfits⟩
    · rintro ⟨hk, hfits⟩
      obtain rfl := int_inj hk
      exact ⟨hfits, rfl⟩
  · next hother =>
    constructor
    · intro h
      cases h
    · rintro ⟨rfl, -⟩
      exact absurd rfl (hother n)

private theorem Numeral.fits_of_integer? {base : Nat} {cs : List Char} {n : Int}
    (h : integer? base cs = some n) : Word.fitsSigned 64 n = true := by
  unfold integer? at h
  obtain ⟨k, -, hvalue⟩ := Option.bind_eq_some_iff.1 h
  obtain ⟨hfits, hn⟩ := Option.ite_none_right_eq_some.1 hvalue
  rwa [Option.some.inj hn] at hfits

/-- A number text with an integer value has 64 bits: a greater one is a double. -/
private theorem Numeral.fits_of_toJson {text : String} {n : Int} (h : toJson text = .int n) :
    Word.fitsSigned 64 n = true := by
  -- The text itself is a string, so the value has been read.
  have hread : ∀ {value : Option Json}, value.getD (.string text) = .int n →
      value = some (.int n) := by
    intro value hvalue
    cases value with
    | none => cases hvalue
    | some value => exact congrArg some hvalue
  have hinteger : ∀ {base : Nat} {cs : List Char},
      (integer? base cs).map Json.int = some (.int n) → Word.fitsSigned 64 n = true := by
    intro base cs hsome
    obtain ⟨k, hk, heq⟩ := Option.map_eq_some_iff.1 hsome
    exact fits_of_integer? (Json.int_inj heq ▸ hk)
  -- Hexadecimal with either letter, or decimal; what is no decimal integer is read as a double.
  unfold toJson at h
  replace h := hread h
  split at h
  · exact hinteger h
  · exact hinteger h
  · split at h
    · next k hk =>
      exact fits_of_integer? (Json.int_inj (Option.some.inj h) ▸ hk)
    · obtain ⟨x, -, hx⟩ := Option.map_eq_some_iff.1 h
      cases hx

/-- An initializer with an integer value, as the counting sees it. -/
private theorem Expr.asInt?_toJson {e : Expr} {n : Int} :
    e.toJson.asInt? = some n ↔ e.toJson = .int n := by
  rw [Json.asInt?_eq_some]
  refine and_iff_left_of_imp fun h => ?_
  cases e with
  | number text =>
    rw [toJson] at h
    exact Numeral.fits_of_toJson h
  | _ =>
    rw [toJson] at h
    cases h

/-! ## The running number -/

namespace EnumMember

/-- The value of a member where `next` is the number for it. -/
def valueAt (next : Option Int) (member : EnumMember) : Json :=
  match member.initializer, next with
  | some e, _ => e.toJson
  | none, some n => .int n
  | none, none => .string member.name

/-- The number for the member after these. -/
def counter (next : Option Int) (members : List EnumMember) : Option Int :=
  members.foldl (fun next member => (member.valueAt next).asInt?.map (Word.succSigned 64)) next

section

variable {next : Option Int} {member : EnumMember} {members : List EnumMember}

private theorem valueAt_of_some {e : Expr} (h : member.initializer = some e) :
    member.valueAt next = e.toJson := by
  simp only [valueAt, h]

private theorem valueAt_of_none (h : member.initializer = none) :
    member.valueAt next = next.elim (.string member.name) .int := by
  cases next <;> simp only [valueAt, h, Option.elim]

theorem values_cons (next : Option Int) (member : EnumMember) (members : List EnumMember) :
    values next (member :: members) =
      (member.name, member.valueAt next) ::
        values ((member.valueAt next).asInt?.map (Word.succSigned 64)) members :=
  rfl

private theorem names_values (next : Option Int) (members : List EnumMember) :
    (values next members).map (·.1) = members.map (·.name) := by
  induction members generalizing next with
  | nil => rfl
  | cons member members ih => rw [values_cons, List.map_cons, List.map_cons, ih]

/-- A member gets its value from the running number before it. -/
private theorem getElem?_values (next : Option Int) (before : List EnumMember) (member : EnumMember)
    (after : List EnumMember) :
    (values next (before ++ member :: after))[before.length]? =
      some (member.name, member.valueAt (counter next before)) := by
  induction before generalizing next with
  | nil => rfl
  | cons first before ih =>
    rw [List.cons_append, values_cons, List.length_cons, List.getElem?_cons_succ, ih]
    rfl

/-! ## The closed form -/

/-- The number for a member without initializer, from the members before it. It is their count if
none of them has an initializer. Otherwise the last one that has an initializer decides: the number
is its integer and the distance from there, and there is none if its value is no integer. -/
inductive Counts : (before : List EnumMember) → (next : Option Int) → Prop
  | start {before : List EnumMember} : (∀ member ∈ before, member.initializer = none) →
      Counts before (some before.length)
  | integer {earlier between : List EnumMember} {last : EnumMember} {e : Expr} {n : Int} :
      last.initializer = some e → (∀ member ∈ between, member.initializer = none) →
      e.toJson = .int n → Counts (earlier ++ last :: between) (some (n + (between.length + 1)))
  | other {earlier between : List EnumMember} {last : EnumMember} {e : Expr} :
      last.initializer = some e → (∀ member ∈ between, member.initializer = none) →
      (∀ n, e.toJson ≠ .int n) → Counts (earlier ++ last :: between) none

/-- The closed form covers all lists of members. -/
private theorem exists_counts (before : List EnumMember) : ∃ next, Counts before next := by
  -- From the end of the list, as the last initializer decides.
  induction before using List.reverseRecOn with
  | nil => exact ⟨_, .start (List.forall_mem_nil _)⟩
  | append_singleton before member ih =>
    -- One more member without initializer is one more blank member.
    have hconcat : ∀ {members : List EnumMember}, (∀ m ∈ members, m.initializer = none) →
        member.initializer = none → ∀ m ∈ members ++ [member], m.initializer = none := by
      intro members hmembers hmember m hm
      rcases List.mem_append.1 hm with hm | hm
      · exact hmembers m hm
      · exact List.mem_singleton.1 hm ▸ hmember
    cases hinit : member.initializer with
    | some e =>
      by_cases hinteger : ∃ n, e.toJson = .int n
      · obtain ⟨n, hn⟩ := hinteger
        exact ⟨_, .integer hinit (List.forall_mem_nil _) hn⟩
      · exact ⟨_, .other hinit (List.forall_mem_nil _) (not_exists.1 hinteger)⟩
    | none =>
      obtain ⟨next, hnext⟩ := ih
      cases hnext with
      | start hblank => exact ⟨_, .start (hconcat hblank hinit)⟩
      | integer hlast hblank hn =>
        rw [List.append_assoc, List.cons_append]
        exact ⟨_, .integer hlast (hconcat hblank hinit) hn⟩
      | other hlast hblank hother =>
        rw [List.append_assoc, List.cons_append]
        exact ⟨_, .other hlast (hconcat hblank hinit) hother⟩

private theorem succSigned_eq {n : Int} (h : n + 1 < Word.count 63) :
    Word.succSigned 64 n = n + 1 :=
  if_neg (Int.ne_of_lt h)

/-- Members without initializers count on while `EnumMember.counter` has 64 bits. -/
private theorem counter_of_blank {n : Int} (hblank : ∀ member ∈ members, member.initializer = none)
    (hlow : -(Word.count 63 : Int) ≤ n) (hhigh : n + members.length < Word.count 63) :
    counter (some n) members = some (n + members.length) := by
  induction members generalizing n with
  | nil => simp [counter]
  | cons member members ih =>
    obtain ⟨hmember, hmembers⟩ := List.forall_mem_cons.1 hblank
    rw [List.length_cons] at hhigh ⊢
    push_cast at hhigh ⊢
    -- There is a member, so that the number itself is not at the end of the range.
    have hfits : Word.fitsSigned 64 n = true := Word.fitsSigned_iff.2 ⟨hlow, by omega⟩
    have hvalue : (member.valueAt (some n)).asInt? = some n :=
      Json.asInt?_eq_some.2 ⟨valueAt_of_none hmember, hfits⟩
    have hrest := @ih (n + 1) hmembers (by omega) (by omega)
    rw [counter, List.foldl_cons, hvalue, Option.map_some, succSigned_eq (by omega)]
    rw [counter] at hrest
    rw [hrest]
    congr 1
    omega

private theorem counter_none (hblank : ∀ member ∈ members, member.initializer = none) :
    counter none members = none := by
  induction members with
  | nil => rfl
  | cons member members ih =>
    obtain ⟨hmember, hmembers⟩ := List.forall_mem_cons.1 hblank
    rw [counter, List.foldl_cons, valueAt_of_none hmember]
    exact ih hmembers

private theorem counter_of_initializer {e : Expr} (h : member.initializer = some e)
    (earlier : List EnumMember) :
    counter next (earlier ++ member :: members) =
      counter (e.toJson.asInt?.map (Word.succSigned 64)) members := by
  rw [counter, List.foldl_append, List.foldl_cons, valueAt_of_some h]
  rfl

end

/-- The running number is the one of the closed form, as long as that has 64 bits. -/
theorem Counts.counter_eq {before : List EnumMember} {next : Option Int} (h : Counts before next)
    (hrange : ∀ n ∈ next, n < Word.count 63) : counter (some 0) before = next := by
  cases h with
  | start hblank =>
    have hlength := hrange _ rfl
    rw [counter_of_blank hblank (by omega) (by omega)]
    simp
  | @integer earlier between last e n hlast hblank hn =>
    have hnumber := hrange _ rfl
    -- The last initializer is a number in range, so counting on from it does not wrap.
    have hlow := (Word.fitsSigned_iff.1 (Json.asInt?_eq_some.1 (Expr.asInt?_toJson.2 hn)).2).1
    rw [counter_of_initializer hlast, Expr.asInt?_toJson.2 hn, Option.map_some,
      succSigned_eq (by omega), counter_of_blank hblank (by omega) (by omega)]
    congr 1
    omega
  | @other earlier between last e hlast hblank hother =>
    -- Behind an initializer that is no integer there is nothing to count on from.
    have hnone : e.toJson.asInt? = none := by
      rw [Option.eq_none_iff_forall_not_mem]
      intro n hn
      exact hother n (Expr.asInt?_toJson.1 hn)
    rw [counter_of_initializer hlast, hnone]
    exact counter_none hblank

end EnumMember

/-! ## The entry of an enum -/

namespace Resolver

/-- The names are listed if no value stands there before. -/
theorem isSome_memberNames? {values : List (String × Json)} :
    (memberNames? values).isSome = true ↔
      (values.map (·.2)).Pairwise fun first second => (first == second) = false := by
  have hlength := @length_foldl_addNew _ _ (values.map (·.2)) []
  rw [List.length_nil, Nat.zero_add] at hlength
  have hsymm : (values.map (·.2)).Pairwise (fun first second => (second == first) = false) ↔
      (values.map (·.2)).Pairwise fun first second => (first == second) = false := by
    simp only [BEq.comm]
  unfold memberNames?
  dsimp only
  split
  · next h => simpa [hsymm] using hlength.1 h
  · next h => simpa [hsymm] using mt hlength.2 h

private theorem eq_of_memberNames? {values : List (String × Json)} {names : List String}
    (h : memberNames? values = some names) : names = values.map (·.1) :=
  (Option.some.inj (Option.ite_none_right_eq_some.1 h).2).symm

private theorem resolve_enum {r : Resolver} {name : String} {located : Located} {d : EnumDecl}
    (hfind : r.index.find name = [located]) (hd : located.declaration = .ofEnum d)
    (arguments : List TypeExpr) (hints : Hints) :
    r.resolve (.reference name arguments) hints = enumReference located d := by
  rw [resolve_eq_step]
  show r.reference r.resolve name arguments hints = _
  simp only [reference, hfind, declared, hd]

end Resolver

/-- The members of an enum have the values of the closed form. A member with an initializer has the
value of that. A member without one has the number that the members before it give, if this number
has 64 bits, or its own name if they give none. A use of an enum that has no entry yet makes one,
which lists the values in order. It also lists the names of the members, one for each value, if and
only if no two of the values are equal. -/
theorem enum_numbering (d : EnumDecl) :
    d.values.map (·.1) = d.members.map (·.name) ∧
    (∀ before member after, d.members = before ++ member :: after →
      ∃ value, d.values[before.length]? = some (member.name, value) ∧
        (∀ e, member.initializer = some e → value = e.toJson) ∧
        (member.initializer = none → (∃ next, EnumMember.Counts before next) ∧
          ∀ next, EnumMember.Counts before next → (∀ n ∈ next, n < Word.count 63) →
            value = next.elim (.string member.name) .int)) ∧
    ∀ (r : Resolver) (name : String) (located : Located) (arguments : List TypeExpr)
      (hints : Hints) (s : Session) (c : Context),
      r.index.find name = [located] → located.declaration = .ofEnum d →
      s.context.claim located.qualifiedName located.location = .ok c →
      s.context.reference? located.qualifiedName = none →
      ∃ t entry names, (r.resolve (.reference name arguments) hints).run s =
          (.ok (.ofKind (.reference .enum located.qualifiedName)), t) ∧
        t.context.reference? located.qualifiedName = some entry ∧
        entry.shape = .enum (d.values.map (·.2)) names ∧
        (names.isSome = true ↔
          (d.values.map (·.2)).Pairwise fun first second => (first == second) = false) ∧
        ∀ list ∈ names, list = d.members.map (·.name) := by
  refine ⟨EnumMember.names_values _ _, ?_, ?_⟩
  · intro before member after hmembers
    refine ⟨member.valueAt (EnumMember.counter (some 0) before), ?_,
      fun e he => EnumMember.valueAt_of_some he, fun hnone => ?_⟩
    · rw [EnumDecl.values, hmembers]
      exact EnumMember.getElem?_values _ _ _ _
    · refine ⟨EnumMember.exists_counts before, fun next hnext hrange => ?_⟩
      rw [EnumMember.valueAt_of_none hnone, hnext.counter_eq hrange]
  · intro r name located arguments hints s c hfind hd hclaim hunknown
    rw [← Context.reference?_claim hclaim] at hunknown
    -- The claim succeeds and the name is not known, so the enum is built.
    have hrun := Resolver.enumOutcome_iff.2 (.built (d := d) hclaim hunknown)
    rw [← Resolver.resolve_enum hfind hd arguments hints] at hrun
    refine ⟨_, Resolver.enumEntry d located.qualifiedName, Resolver.memberNames? d.values,
      hrun, ?_, rfl, Resolver.isSome_memberNames?, fun list hlist => ?_⟩
    · simp [Resolver.enumEntry]
    · rw [Resolver.eq_of_memberNames? hlist]
      exact EnumMember.names_values _ _

/-- An enum that counts on from a hexadecimal number and, after a string, gives names. -/
theorem level_numbering :
    let d : EnumDecl := ⟨"Level", [⟨"Low", none, none⟩, ⟨"High", some (.number "0x10"), none⟩,
      ⟨"Max", none, none⟩, ⟨"Label", some (.string "x"), none⟩, ⟨"Rest", none, none⟩],
      false, none, 1⟩
    let r : Resolver := ⟨.ofProgram [⟨"models.ts", ⟨[.enumDecl d], []⟩⟩], ⟨[]⟩⟩
    d.values[2]? = some ("Max", .int 17) ∧ d.values[4]? = some ("Rest", .string "Rest") ∧
    ∃ t entry, (r.resolve (.named "Level") .none).run .empty =
        (.ok (.ofKind (.reference .enum "Level")), t) ∧
      t.context.reference? "Level" = some entry ∧
      entry.shape = .enum [.int 0, .int 16, .int 17, .string "x", .string "Rest"]
        (some ["Low", "High", "Max", "Label", "Rest"]) := by
  intro d r
  obtain ⟨-, hvalues, hentry⟩ := enum_numbering d
  refine ⟨?_, ?_, ?_⟩
  -- The member behind a number counts on from it.
  · obtain ⟨value, hvalue, -, hcounted⟩ := hvalues [_, _] _ [_, _] rfl
    have hcounts := @EnumMember.Counts.integer [⟨"Low", none, none⟩] []
      ⟨"High", some (.number "0x10"), none⟩ _ 16 rfl (List.forall_mem_nil _) rfl
    rw [(hcounted rfl).2 _ hcounts (by rintro n ⟨⟩; decide)] at hvalue
    exact hvalue
  -- The member behind a text has its own name as value.
  · obtain ⟨value, hvalue, -, hcounted⟩ := hvalues [_, _, _, _] _ [] rfl
    have hcounts := @EnumMember.Counts.other
      [⟨"Low", none, none⟩, ⟨"High", some (.number "0x10"), none⟩, ⟨"Max", none, none⟩] []
      ⟨"Label", some (.string "x"), none⟩ _ rfl (List.forall_mem_nil _)
      (by intro n hn; cases hn)
    rw [(hcounted rfl).2 _ hcounts (by rintro n ⟨⟩)] at hvalue
    exact hvalue
  · obtain ⟨t, entry, names, hrun, htable, hshape, hnames, hlist⟩ :=
      hentry r "Level" _ [] .none .empty _ rfl rfl rfl rfl
    -- No two of the values are the same, so the names are kept.
    have hdifferent : names.isSome = true := hnames.2 (by decide)
    obtain ⟨list, rfl⟩ := Option.isSome_iff_exists.1 hdifferent
    rw [hlist list rfl] at hshape
    exact ⟨t, entry, hrun, htable, hshape⟩

end Endpoints
