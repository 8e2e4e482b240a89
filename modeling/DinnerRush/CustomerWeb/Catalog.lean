import DinnerRush.CustomerWeb.Cart
import Mathlib.Data.Rat.Defs

/-!
# The catalog

`customer-web/src/lib/data.ts`: the restaurants, the dishes and the bundles of the storefront, which
the cart and the checkout look up by their ids in plain objects. A lookup by a name that such an
object inherits finds something, too, which is no dish and no bundle.

A `Catalog` is such data whose dishes can be ordered and are of restaurants that are listed, and
whose bundles are of dishes that are listed. Prices are exact. What is only shown is left out.
-/

set_option autoImplicit false
set_option relaxedAutoImplicit false

namespace DinnerRush.CustomerWeb

inductive CuisineKey
  | italian
  | mexican
  | asian
  | healthy
  | bbq
  | mediterranean
  | breakfast
  | indian
  deriving DecidableEq, Repr

structure Restaurant where
  id : String
  name : String
  deriving DecidableEq, Repr

/-- A group-sized tray, and the least and the most people that it serves. -/
structure Dish where
  id : String
  restaurantId : String
  name : String
  price : ℚ
  serves : ℤ × ℤ
  cuisine : CuisineKey
  deriving DecidableEq, Repr

structure CuratedBundle where
  id : String
  dishIds : List String
  deriving DecidableEq, Repr

/-! ### Lookups -/

/-- The names under which a plain object finds something that is not its own. -/
def objectPrototype : List String :=
  ["__defineGetter__", "__defineSetter__", "__lookupGetter__", "__lookupSetter__", "__proto__",
    "constructor", "hasOwnProperty", "isPrototypeOf", "propertyIsEnumerable", "toLocaleString",
    "toString", "valueOf"]

section FromEntries

variable {β : Type} {idOf : β → String} {values : List β} {id : String}

/-- The entries of `Object.fromEntries` of some values by their ids: of two values with one id the
later counts. -/
def fromEntries (idOf : β → String) (values : List β) (id : String) : Option β :=
  values.reverse.find? fun value ↦ idOf value = id

theorem fromEntries_eq_some {value : β} (h : fromEntries idOf values id = some value) :
    value ∈ values ∧ idOf value = id :=
  ⟨List.mem_reverse.mp (List.mem_of_find?_eq_some h), by simpa using List.find?_some h⟩

theorem exists_fromEntries (h : id ∈ values.map idOf) :
    ∃ value, fromEntries idOf values id = some value := by
  obtain ⟨value, hvalue, hid⟩ := List.mem_map.mp h
  refine Option.isSome_iff_exists.mp (List.find?_isSome.mpr ⟨value, ?_, by simpa using hid⟩)
  exact List.mem_reverse.mpr hvalue

/-- The object has no entry under the name, but inherits something. -/
def inherits (entries : String → Option β) (name : String) : Bool :=
  (entries name).isNone && decide (name ∈ objectPrototype)

end FromEntries

/-! ### The data -/

structure Catalog where
  restaurants : List Restaurant
  dishes : List Dish
  bundles : List CuratedBundle
  restaurantId_mem : ∀ dish ∈ dishes, dish.restaurantId ∈ restaurants.map Restaurant.id
  restaurantId_ne : ∀ restaurant ∈ restaurants, restaurant.id ≠ ""
  dishId_ne : ∀ dish ∈ dishes, dish.id ≠ ""
  price_nonneg : ∀ dish ∈ dishes, 0 ≤ dish.price
  dishIds_subset : ∀ bundle ∈ bundles, bundle.dishIds ⊆ dishes.map Dish.id

namespace Catalog

variable (catalog : Catalog)

def restaurantMap : String → Option Restaurant := fromEntries Restaurant.id catalog.restaurants

def dishMap : String → Option Dish := fromEntries Dish.id catalog.dishes

def bundleMap : String → Option CuratedBundle := fromEntries CuratedBundle.id catalog.bundles

/-- `dishMap[dishId]` is there, be it a dish or not. -/
def hasDish (dishId : String) : Bool :=
  (catalog.dishMap dishId).isSome || inherits catalog.dishMap dishId

/-- What the operations of the cart look up. -/
def menu : Cart.Menu where
  hasDish := catalog.hasDish
  dishIds bundleId := (catalog.bundleMap bundleId).map CuratedBundle.dishIds

variable {catalog}

theorem inherits_eq_false {dishId : String} {dish : Dish} (h : catalog.dishMap dishId = some dish) :
    inherits catalog.dishMap dishId = false := by
  simp [inherits, h]

theorem hasDish_of_not_inherits {dishId : String} (h : inherits catalog.dishMap dishId = false) :
    catalog.hasDish dishId = (catalog.dishMap dishId).isSome := by
  rw [hasDish, h, Bool.or_false]

/-- A dish of a bundle is in the catalog. -/
theorem exists_dish_of_bundle {bundleId : String} {dishIds : List String}
    (h : catalog.menu.dishIds bundleId = some dishIds) :
    ∀ dishId ∈ dishIds, ∃ dish, catalog.dishMap dishId = some dish := by
  obtain ⟨bundle, hbundle, rfl⟩ := Option.map_eq_some_iff.mp h
  exact fun dishId hdish ↦
    exists_fromEntries (catalog.dishIds_subset bundle (fromEntries_eq_some hbundle).1 hdish)

/-- The restaurant of a dish of the catalog is found, under its id. -/
theorem exists_restaurant {dishId : String} {dish : Dish} (h : catalog.dishMap dishId = some dish) :
    ∃ restaurant, catalog.restaurantMap dish.restaurantId = some restaurant ∧
      restaurant.id = dish.restaurantId := by
  obtain ⟨hdish, -⟩ := fromEntries_eq_some h
  obtain ⟨restaurant, hrestaurant⟩ := exists_fromEntries (catalog.restaurantId_mem dish hdish)
  exact ⟨restaurant, hrestaurant, (fromEntries_eq_some hrestaurant).2⟩

end Catalog

/-! ### The storefront -/

def restaurants : List Restaurant :=
  [⟨"nonna", "Nonna's Table"⟩,
    ⟨"slice", "Slice Society"⟩,
    ⟨"fuego", "El Fuego Taqueria"⟩,
    ⟨"sakura", "Sakura Ramen House"⟩,
    ⟨"dragon", "Dragon Wok"⟩,
    ⟨"verde", "Verde Bowl Co."⟩,
    ⟨"smoke", "Smokestack BBQ"⟩,
    ⟨"olive", "Olive & Thyme"⟩,
    ⟨"saffron", "Saffron Spice Kitchen"⟩,
    ⟨"sunrise", "Sunrise Brunch Club"⟩]

def dishes : List Dish :=
  [⟨"nonna-1", "nonna", "Rigatoni alla Vodka", 78, (8, 10), .italian⟩,
    ⟨"nonna-2", "nonna", "Chicken Parmigiana Tray", 96, (8, 10), .italian⟩,
    ⟨"nonna-3", "nonna", "Burrata & Caprese Platter", 64, (10, 12), .italian⟩,
    ⟨"nonna-4", "nonna", "Tiramisu Cups (24)", 72, (20, 24), .italian⟩,
    ⟨"slice-1", "slice", "Margherita Party Box", 84, (10, 14), .italian⟩,
    ⟨"slice-2", "slice", "Pepperoni Crowd Pies", 90, (10, 14), .italian⟩,
    ⟨"slice-3", "slice", "Garden Antipasto Salad", 52, (10, 12), .italian⟩,
    ⟨"slice-4", "slice", "Garlic Knot Mountain", 34, (12, 16), .italian⟩,
    ⟨"fuego-1", "fuego", "Build-Your-Own Taco Bar", 128, (12, 15), .mexican⟩,
    ⟨"fuego-2", "fuego", "Carne Asada Burrito Box", 98, (10, 10), .mexican⟩,
    ⟨"fuego-3", "fuego", "Loaded Nacho Tray", 56, (10, 12), .mexican⟩,
    ⟨"fuego-4", "fuego", "Chips, Guac & Salsa Trio", 38, (12, 16), .mexican⟩,
    ⟨"sakura-1", "sakura", "Tonkotsu Ramen Kit", 132, (8, 10), .asian⟩,
    ⟨"sakura-2", "sakura", "Shoyu Ramen Kit", 124, (8, 10), .asian⟩,
    ⟨"sakura-3", "sakura", "Gyoza Dumpling Platter", 60, (10, 12), .asian⟩,
    ⟨"sakura-4", "sakura", "Edamame & Seaweed Salad", 36, (10, 12), .asian⟩,
    ⟨"dragon-1", "dragon", "Dragon Roll Sushi Boat", 168, (10, 14), .asian⟩,
    ⟨"dragon-2", "dragon", "Rainbow Sashimi Platter", 142, (8, 10), .asian⟩,
    ⟨"dragon-3", "dragon", "Kung Pao Chicken Tray", 74, (8, 10), .asian⟩,
    ⟨"dragon-4", "dragon", "Veggie Fried Rice Tub", 48, (12, 14), .asian⟩,
    ⟨"verde-1", "verde", "Harvest Grain Bowl Bar", 118, (10, 14), .healthy⟩,
    ⟨"verde-2", "verde", "Citrus Kale Caesar", 54, (10, 12), .healthy⟩,
    ⟨"verde-3", "verde", "Rainbow Crudité Box", 44, (12, 16), .healthy⟩,
    ⟨"verde-4", "verde", "Açaí & Berry Cups (16)", 68, (14, 16), .healthy⟩,
    ⟨"smoke-1", "smoke", "Brisket & Burnt Ends Tray", 188, (10, 12), .bbq⟩,
    ⟨"smoke-2", "smoke", "Pulled Pork Slider Stack", 96, (12, 14), .bbq⟩,
    ⟨"smoke-3", "smoke", "Smoked Mac & Cheese", 58, (10, 14), .bbq⟩,
    ⟨"smoke-4", "smoke", "Cornbread & Slaw Combo", 42, (12, 16), .bbq⟩,
    ⟨"olive-1", "olive", "Mezze Grazing Board", 92, (12, 16), .mediterranean⟩,
    ⟨"olive-2", "olive", "Chicken Shawarma Platter", 104, (10, 12), .mediterranean⟩,
    ⟨"olive-3", "olive", "Falafel & Hummus Box", 62, (10, 12), .mediterranean⟩,
    ⟨"olive-4", "olive", "Greek Village Salad", 50, (10, 12), .mediterranean⟩,
    ⟨"saffron-1", "saffron", "Butter Chicken Feast", 112, (10, 12), .indian⟩,
    ⟨"saffron-2", "saffron", "Vegetarian Thali Spread", 98, (10, 12), .indian⟩,
    ⟨"saffron-3", "saffron", "Tandoori Mixed Grill", 124, (10, 12), .indian⟩,
    ⟨"saffron-4", "saffron", "Samosa & Chaat Box", 52, (12, 14), .indian⟩,
    ⟨"sunrise-1", "sunrise", "Build-Your-Own Bagel Bar", 86, (12, 16), .breakfast⟩,
    ⟨"sunrise-2", "sunrise", "Pancake & Berry Stack", 64, (10, 12), .breakfast⟩,
    ⟨"sunrise-3", "sunrise", "Avocado Toast Flight", 58, (8, 10), .breakfast⟩,
    ⟨"sunrise-4", "sunrise", "Fruit & Yogurt Parfaits (16)", 56, (14, 16), .breakfast⟩]

def bundles : List CuratedBundle :=
  [⟨"b-world", ["fuego-1", "sakura-1", "saffron-1", "verde-1"]⟩,
    ⟨"b-fiesta", ["fuego-1", "fuego-3", "fuego-4", "verde-2"]⟩,
    ⟨"b-pasta", ["nonna-1", "slice-1", "slice-3", "nonna-4"]⟩,
    ⟨"b-reset", ["verde-1", "verde-2", "verde-3", "verde-4"]⟩,
    ⟨"b-bbq", ["smoke-1", "smoke-2", "smoke-3", "smoke-4"]⟩,
    ⟨"b-breakfast", ["sunrise-1", "sunrise-2", "sunrise-3", "verde-4"]⟩]

/-- The catalog of the storefront. -/
def Catalog.storefront : Catalog where
  restaurants := CustomerWeb.restaurants
  dishes := CustomerWeb.dishes
  bundles := CustomerWeb.bundles
  restaurantId_mem := by decide +kernel
  restaurantId_ne := by decide +kernel
  dishId_ne := by decide +kernel
  price_nonneg := by decide +kernel
  dishIds_subset := by decide +kernel

end DinnerRush.CustomerWeb
