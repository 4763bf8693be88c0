import ReactorSynth.Target

/-!
# Initializers in C++

A C++ initializer stands alone or behind the name of a member, and it is written inside a reactor
class or in the outer class around it. These four ways share one layout: items of the element type
between delimiters, with the declared type in front where an initializer of several values stands
alone.

* `Target.memberInitializer_of_two_le` and `Target.initializer_of_two_le`: the layout of several
  values.
* **`Target.initializers_agree`**: so the two positions differ only in the parentheses around a
  single assigned value and in the type in front of several values.
* `Target.dataType_cppOuter`: both targets spell all types alike, lists of lists included.
* **`Target.cppOuter_simulates_cpp`**: the outer class has the texts of the inner one for values
  whose parameters are reached through the inner instance (`Value.throughInner`).
-/

namespace ReactorSynth

/-! ## Layout -/

/-- Items between the delimiters of a form; assigned lists stand in braces. -/
def InitForm.enclose (form : InitForm) (items : String) : String :=
  match form with
  | assign | braces => "\x7b" ++ items ++ "\x7d"
  | parens => "(" ++ items ++ ")"

namespace Target

variable {target : Target} {type : InferredType} {init : List Value}

theorem memberInitializer_of_two_le (h : 2 ≤ init.length) (form : InitForm) :
    target.memberInitializer type form init =
      form.enclose (target.itemsExpr type.element init) := by
  match init, h with
  | _ :: _ :: _, _ => cases form <;> rfl

theorem initializer_eq (htarget : target ≠ python) (type : InferredType) (init : List Value) :
    target.initializer type init = target.standaloneInitializer type init := by
  cases target with
  | python => exact absurd rfl htarget
  | cpp | cppOuter => rfl

theorem initializer_of_two_le (htarget : target ≠ python) (h : 2 ≤ init.length) :
    target.initializer type init =
      target.typeExpr type ++ InitForm.braces.enclose (target.itemsExpr type.element init) := by
  rw [initializer_eq htarget]
  match init, h with
  | _ :: _ :: _, _ => simp only [standaloneInitializer, InitForm.enclose, String.append_assoc]

/-- **Both positions agree.** In C++ an initializer without values is the same alone and behind the
name of a member. A single assigned value is put in parentheses there. Several values have the type
in front when they stand alone, and are otherwise written as assigned; assigned and braced they are
the same, items of the element type in braces, and parentheses take the place of these braces. -/
theorem initializers_agree (htarget : target ≠ python) (type : InferredType) :
    (∀ form, target.memberInitializer type form [] = target.missingExpr type ∧
      target.initializer type [] = target.missingExpr type) ∧
    (∀ value, target.memberInitializer type .assign [value] =
      "(" ++ target.initializer type [value] ++ ")") ∧
    ∀ init : List Value, 2 ≤ init.length →
      target.initializer type init =
        target.typeExpr type ++ target.memberInitializer type .assign init ∧
      target.memberInitializer type .assign init = target.memberInitializer type .braces init ∧
      target.memberInitializer type .braces init =
        "\x7b" ++ target.itemsExpr type.element init ++ "\x7d" ∧
      target.memberInitializer type .parens init =
        "(" ++ target.itemsExpr type.element init ++ ")" := by
  refine ⟨fun form => ⟨?_, initializer_eq htarget type []⟩, fun value => ?_, fun init h =>
    ⟨?_, ?_, ?_⟩⟩
  · cases form <;> rfl
  · rw [initializer_eq htarget]
    rfl
  · rw [initializer_of_two_le htarget h, memberInitializer_of_two_le h]
    rfl
  · rw [memberInitializer_of_two_le h, memberInitializer_of_two_le h]
    rfl
  · exact ⟨memberInitializer_of_two_le h .braces, memberInitializer_of_two_le h .parens⟩

/-- A zero, a parameter, a number with a leading point and a time, given to a list of times. -/
def mixedValues : List Value :=
  [.literal "0.0", .parameter "period", .literal ".5", .time ⟨2, .week⟩]

theorem initializers_agree_mixedValues :
    cppOuter ≠ python ∧ 2 ≤ mixedValues.length ∧
      cppOuter.memberInitializer .timeList .assign mixedValues =
        "\x7breactor::Duration::zero(), __lf_inner.period, 0.5, 2d*7\x7d" ∧
      cppOuter.memberInitializer .timeList .braces mixedValues =
        "\x7breactor::Duration::zero(), __lf_inner.period, 0.5, 2d*7\x7d" ∧
      cppOuter.initializer .timeList mixedValues = "std::vector<reactor::Duration>" ++
        "\x7breactor::Duration::zero(), __lf_inner.period, 0.5, 2d*7\x7d" := by
  have htarget : cppOuter ≠ python := by decide
  have hlength : 2 ≤ mixedValues.length := by decide
  obtain ⟨halone, hbraces, -⟩ := (initializers_agree htarget .timeList).2.2 mixedValues hlength
  have hassign : cppOuter.memberInitializer .timeList .assign mixedValues =
      "\x7breactor::Duration::zero(), __lf_inner.period, 0.5, 2d*7\x7d" := by decide +kernel
  refine ⟨htarget, hlength, hassign, hbraces.symm.trans hassign, ?_⟩
  rw [halone, hassign]
  rfl

end Target

/-! ## The outer class -/

/-- The value with a parameter reached through the inner instance. -/
def Value.throughInner : Value → Value
  | parameter name => parameter ("__lf_inner." ++ name)
  | value => value

namespace Target

variable (type : InferredType)

theorem dataType_cppOuter (type : DataType) : cppOuter.dataType type = cpp.dataType type := by
  induction type with
  | time => rfl
  | code text => rfl
  | list element size ih => cases size <;> simp only [dataType, ih] <;> rfl

theorem typeExpr_cppOuter : cppOuter.typeExpr type = cpp.typeExpr type := by
  cases type with
  | explicit type => exact dataType_cppOuter type
  | time | timeList | undefined => rfl

theorem missingExpr_cppOuter : cppOuter.missingExpr type = cpp.missingExpr type := rfl

theorem valueExpr_cppOuter (value : Value) :
    cppOuter.valueExpr type value = cpp.valueExpr type value.throughInner := by
  cases value <;> rfl

theorem itemsExpr_cppOuter (init : List Value) :
    cppOuter.itemsExpr type init = cpp.itemsExpr type (init.map Value.throughInner) := by
  rw [itemsExpr, itemsExpr, List.map_map]
  exact congrArg _ (List.map_congr_left fun value _ => valueExpr_cppOuter type value)

theorem initializer_cppOuter (init : List Value) :
    cppOuter.initializer type init = cpp.initializer type (init.map Value.throughInner) := by
  match init with
  | [] => rfl
  | [value] => exact valueExpr_cppOuter type value
  | first :: second :: rest =>
    have h : 2 ≤ (first :: second :: rest).length := by simp
    rw [initializer_of_two_le (by decide) h, typeExpr_cppOuter, itemsExpr_cppOuter,
      initializer_of_two_le (by decide) (by rwa [List.length_map])]

theorem memberInitializer_cppOuter (form : InitForm) (init : List Value) :
    cppOuter.memberInitializer type form init =
      cpp.memberInitializer type form (init.map Value.throughInner) := by
  match form, init with
  | .assign, [] | .braces, [] | .parens, [] => rfl
  | .assign, [value] =>
    exact congrArg (fun text => "(" ++ text ++ ")") (valueExpr_cppOuter type value)
  | .braces, [value] =>
    exact congrArg InitForm.braces.enclose (itemsExpr_cppOuter type.element [value])
  | .parens, [value] =>
    exact congrArg InitForm.parens.enclose (itemsExpr_cppOuter type.element [value])
  | form, first :: second :: rest =>
    have h : 2 ≤ (first :: second :: rest).length := by simp
    rw [memberInitializer_of_two_le h, itemsExpr_cppOuter,
      memberInitializer_of_two_le (by rwa [List.length_map])]

/-- **The outer class simulates the inner one.** For every type and form, the texts of initializers
and of single values in the outer class are the ones inside the reactor class for the same values
with every parameter reached through the inner instance. Types, missing values and times have the
same texts in both, and a reference to a parameter is its name, with the inner instance in front. -/
theorem cppOuter_simulates_cpp :
    (∀ type init, cppOuter.initializer type init =
      cpp.initializer type (init.map Value.throughInner)) ∧
    (∀ type value, cppOuter.valueExpr type value = cpp.valueExpr type value.throughInner) ∧
    (∀ type form init, cppOuter.memberInitializer type form init =
      cpp.memberInitializer type form (init.map Value.throughInner)) ∧
    (∀ type, cppOuter.typeExpr type = cpp.typeExpr type) ∧
    (∀ type, cppOuter.dataType type = cpp.dataType type) ∧
    (∀ type, cppOuter.missingExpr type = cpp.missingExpr type) ∧
    (∀ t, cppOuter.timeExpr t = cpp.timeExpr t) ∧
    ∀ type name, cpp.valueExpr type (.parameter name) = name ∧
      cppOuter.valueExpr type (.parameter name) = "__lf_inner." ++ name :=
  ⟨initializer_cppOuter, valueExpr_cppOuter, memberInitializer_cppOuter, typeExpr_cppOuter,
    dataType_cppOuter, missingExpr_cppOuter, fun _ => rfl, fun _ _ => ⟨rfl, rfl⟩⟩

example :
    cppOuter.initializer (.explicit (.list .time (some 2))) [.parameter "p", .time ⟨1, .sec⟩] =
      "std::array<reactor::Duration, 2>\x7b__lf_inner.p, 1s\x7d" := by decide +kernel

end Target

end ReactorSynth
