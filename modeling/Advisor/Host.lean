import Advisor.Json.Value

/-!
# The host catalogue

What names of the script language stand for in the host program. The host keeps its trading
interface in a field of the generated object, and the accessors go through that field. Both tables
are in the order of their names.
-/

namespace Advisor.Host

/-- The field of the generated object that holds the trading interface. -/
def apiField : String := "api"

/-- Predefined variables and constants with the expressions that replace them. -/
def constants : List (String × String) :=
  [("ACCOUNT_BALANCE", "\"ACCOUNT_BALANCE\""), ("ACCOUNT_EQUITY", "\"ACCOUNT_EQUITY\""),
    ("ACCOUNT_MARGIN_FREE", "\"ACCOUNT_MARGIN_FREE\""), ("Ask", "this.api.getAsk()"),
    ("Bid", "this.api.getBid()"), ("Digits", "this.api.getDigits()"),
    ("EMPTY_VALUE", "Number.MAX_VALUE"), ("INIT_FAILED", "1"), ("INIT_SUCCEEDED", "0"),
    ("INVALID_HANDLE", "-1"), ("MODE_EMA", "1"), ("MODE_LWMA", "3"), ("MODE_SMA", "0"),
    ("MODE_SMMA", "2"), ("NULL", "null"), ("ORDER_TYPE_BUY", "0"), ("ORDER_TYPE_BUY_LIMIT", "2"),
    ("ORDER_TYPE_BUY_STOP", "4"), ("ORDER_TYPE_SELL", "1"), ("ORDER_TYPE_SELL_LIMIT", "3"),
    ("ORDER_TYPE_SELL_STOP", "5"), ("PERIOD_CURRENT", "0"), ("PERIOD_D1", "16408"),
    ("PERIOD_H1", "16385"), ("PERIOD_H4", "16388"), ("PERIOD_M1", "1"), ("PERIOD_M15", "15"),
    ("PERIOD_M30", "30"), ("PERIOD_M5", "5"), ("POSITION_MAGIC", "\"POSITION_MAGIC\""),
    ("POSITION_PRICE_OPEN", "\"POSITION_PRICE_OPEN\""), ("POSITION_PROFIT", "\"POSITION_PROFIT\""),
    ("POSITION_TYPE", "\"POSITION_TYPE\""), ("POSITION_TYPE_BUY", "0"), ("POSITION_TYPE_SELL", "1"),
    ("PRICE_CLOSE", "1"), ("PRICE_HIGH", "3"), ("PRICE_LOW", "4"), ("PRICE_OPEN", "2"),
    ("Point", "this.api.getPoint()"), ("SYMBOL_ASK", "\"SYMBOL_ASK\""),
    ("SYMBOL_BID", "\"SYMBOL_BID\""), ("SYMBOL_DIGITS", "\"SYMBOL_DIGITS\""),
    ("SYMBOL_POINT", "\"SYMBOL_POINT\""), ("TRADE_RETCODE_DONE", "10009"),
    ("_Digits", "this.api.getDigits()"), ("_Period", "this.api.getPeriod()"),
    ("_Point", "this.api.getPoint()"), ("_Symbol", "this.api.getSymbol()")]

/-- Predefined functions with the functions that replace them. -/
def functions : List (String × String) :=
  [("AccountInfoDouble", "this.api.accountInfoDouble"),
    ("AccountInfoInteger", "this.api.accountInfoInteger"), ("Alert", "this.api.alert"),
    ("ArraySetAsSeries", "this.api.arraySetAsSeries"), ("Comment", "this.api.comment"),
    ("CopyBuffer", "this.api.copyBuffer"), ("DoubleToString", "this.api.doubleToString"),
    ("IndicatorRelease", "this.api.indicatorRelease"),
    ("IntegerToString", "this.api.integerToString"), ("MathAbs", "Math.abs"),
    ("MathCeil", "Math.ceil"), ("MathFloor", "Math.floor"), ("MathMax", "Math.max"),
    ("MathMin", "Math.min"), ("MathPow", "Math.pow"), ("MathRound", "Math.round"),
    ("MathSqrt", "Math.sqrt"), ("NormalizeDouble", "this.api.normalizeDouble"),
    ("OrderClose", "this.api.orderClose"), ("OrderModify", "this.api.orderModify"),
    ("OrderSelect", "this.api.orderSelect"), ("OrderSend", "this.api.orderSend"),
    ("OrdersTotal", "this.api.ordersTotal"), ("PositionGetDouble", "this.api.positionGetDouble"),
    ("PositionGetInteger", "this.api.positionGetInteger"),
    ("PositionGetSymbol", "this.api.positionGetSymbol"),
    ("PositionGetTicket", "this.api.positionGetTicket"),
    ("PositionSelect", "this.api.positionSelect"), ("PositionsTotal", "this.api.positionsTotal"),
    ("Print", "this.api.print"), ("StringFormat", "this.api.stringFormat"),
    ("SymbolInfoDouble", "this.api.symbolInfoDouble"),
    ("SymbolInfoInteger", "this.api.symbolInfoInteger"), ("TimeCurrent", "this.api.timeCurrent"),
    ("iATR", "this.api.iATR"), ("iBands", "this.api.iBands"), ("iClose", "this.api.iClose"),
    ("iCustom", "this.api.iCustom"), ("iHigh", "this.api.iHigh"), ("iLow", "this.api.iLow"),
    ("iMA", "this.api.iMA"), ("iMACD", "this.api.iMACD"), ("iOpen", "this.api.iOpen"),
    ("iRSI", "this.api.iRSI"), ("iStochastic", "this.api.iStochastic"), ("iTime", "this.api.iTime"),
    ("iVolume", "this.api.iVolume")]

/-- Types, in lower case, with the values that their variables begin with. -/
def typeDefaults : List (String × String) :=
  [("int", "0"), ("uint", "0"), ("long", "0"), ("ulong", "0"), ("short", "0"), ("ushort", "0"),
    ("char", "0"), ("uchar", "0"), ("double", "0.0"), ("float", "0.0"), ("string", "\"\""),
    ("bool", "false"), ("datetime", "0"), ("color", "0")]

/-- The value that a variable of any other type begins with. -/
def otherDefault : String := "0"

def constant? (name : String) : Option String := constants.lookup name

def function? (name : String) : Option String := functions.lookup name

/-- The value that a variable of the type begins with. Case does not count; that of letters outside
ASCII need not be folded, since none of the types has a letter that such a one folds to. -/
def typeDefault (type : String) : String :=
  (typeDefaults.lookup (String.ofList (type.toList.map Char.toLower))).getD otherDefault

/-- Both tables as a value. -/
def catalogue : Json.Value :=
  let entry (e : String × String) : Json.Value :=
    .object [("name", .text e.1), ("target", .text e.2)]
  .object [("constants", .array (constants.map entry)), ("functions", .array (functions.map entry))]

end Advisor.Host
