import PrismaticOS.Kernel.HeapSafety
import PrismaticOS.Kernel.Scheduler
import PrismaticOS.Kernel.Mutex
import PrismaticOS.Kernel.Fork
import PrismaticOS.Kernel.Signals
import PrismaticOS.Kernel.WaitChild
import PrismaticOS.Kernel.FsSeek
import PrismaticOS.Kernel.FsSize
import PrismaticOS.Kernel.FsNamespace
import PrismaticOS.Kernel.FsDescriptors
import PrismaticOS.Kernel.FsCapacity
import PrismaticOS.Kernel.PageAccounting
import PrismaticOS.Kernel.SpaceIsolation
import PrismaticOS.Kernel.SimpleMm
import PrismaticOS.Html.SiblingLists
import PrismaticOS.Html.Truncation
import PrismaticOS.Html.InputReads
import PrismaticOS.Html.RawText
import PrismaticOS.Html.UnquotedValues
import PrismaticOS.Html.TextRuns
import PrismaticOS.Html.Acyclic
import PrismaticOS.Html.RoundTrip
import PrismaticOS.Css.Stylesheets
import PrismaticOS.Libc.FreeRecursion
import PrismaticOS.Libc.MallocParts
import PrismaticOS.Libc.MallocBlocks
import PrismaticOS.Libc.Realloc
import PrismaticOS.Kernel.FsLongPaths
import PrismaticOS.Kernel.FsWrites
import PrismaticOS.Kernel.FsReads
import PrismaticOS.Kernel.FsOpen
import PrismaticOS.Html.IdAndClass
import PrismaticOS.Html.Destroy
import PrismaticOS.Html.RefCounts
import PrismaticOS.Kernel.Console
import PrismaticOS.Kernel.ThreadStart
import PrismaticOS.Kernel.Syscalls
import PrismaticOS.Kernel.Terminal
import PrismaticOS.Libc.Printf
import PrismaticOS.Libc.IntConversions
import PrismaticOS.Libc.Snprintf
import PrismaticOS.Gpu.Levels
import PrismaticOS.Gpu.Textures
import PrismaticOS.Gpu.Commands
import PrismaticOS.Kernel.PhysicalPages
import PrismaticOS.Kernel.HeapRequests
import PrismaticOS.Kernel.OffQueue
import PrismaticOS.Kernel.TablePointers
import PrismaticOS.Kernel.IdentityMap
import PrismaticOS.Kernel.RegionCalls
import PrismaticOS.Library.RadixTree
import PrismaticOS.Kernel.PageTrees
import PrismaticOS.Kernel.PageMap
import PrismaticOS.Kernel.RegionPages
import PrismaticOS.Kernel.RegionSearch
import PrismaticOS.Kernel.FsSeekFailure
import PrismaticOS.Kernel.FsMounts
import PrismaticOS.Kernel.FsRemove
import PrismaticOS.Libc.MallocContents
import PrismaticOS.Libc.MallocReuse
import PrismaticOS.Libc.PrintfAccesses
import PrismaticOS.Kernel.ConsolePrintf
import PrismaticOS.Library.Scanning
import PrismaticOS.Library.Padding
import PrismaticOS.Libc.PrintfDirectives
import PrismaticOS.Libc.IntText
import PrismaticOS.Libc.PrintfFields
import PrismaticOS.Libc.PrintfReturn
import PrismaticOS.Kernel.FormatEnds
import PrismaticOS.Kernel.ConsoleNumbers
import PrismaticOS.Libc.Memmove
import PrismaticOS.Libc.Strlen
import PrismaticOS.Libc.Strncpy
import PrismaticOS.Libc.Search
import PrismaticOS.Kernel.SimpleStrings
import PrismaticOS.Library.TextRuns
import PrismaticOS.Libc.Tokens
import PrismaticOS.Libc.Strtol
import PrismaticOS.Libc.Subject
import PrismaticOS.Libc.StrtoulResults
import PrismaticOS.Libc.Memset
import PrismaticOS.Libc.LineReading
import PrismaticOS.Library.ZeroBytes
import PrismaticOS.Library.Positions
import PrismaticOS.Css.RuleDestroy
import PrismaticOS.Html.DestroyOnce
import PrismaticOS.Css.TokenForms
import PrismaticOS.Css.Specificity
import PrismaticOS.Css.Colors
import PrismaticOS.Css.ParserRuns
import PrismaticOS.Css.TokenTexts
import PrismaticOS.Css.RuleSpecificity
import PrismaticOS.Css.InputReads
import PrismaticOS.Css.ParserEnds
import PrismaticOS.Libc.Rand
import PrismaticOS.Libc.ExitHandlers
import PrismaticOS.Kernel.Desktop
import PrismaticOS.Kernel.HtmlText
import PrismaticOS.Kernel.FsCursors
import PrismaticOS.Libc.NumberLists
import PrismaticOS.Kernel.SchedulerStack
import PrismaticOS.Libc.Stdio
import PrismaticOS.Kernel.TextFiles
import PrismaticOS.Gpu.Device
import PrismaticOS.Kernel.ThreadExit
import PrismaticOS.Kernel.TextSeek
import PrismaticOS.Css.StylesheetDestroy
import PrismaticOS.Libc.Calloc
import PrismaticOS.Html.ParserFiles
